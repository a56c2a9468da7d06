import Mathlib.Data.List.Nodup
import Zuckerserv.Net.NetBans

/-!
# Merging the bans that are put aside

After bans are loaded anew, those that were put aside give them their records, and come back if
they are to persist. What is left of the list that was put aside is reported as removed; but the
loop erases the entry behind the one that it looks at.

* `mergePushedBans` — the merge.
* `Merged` — the bans after it, and the report, as they should be.
* `merge_iff` — when they are.
-/

namespace Zuckerserv

namespace NetBans

open Net Text

/-! ## The merge -/

/-- One turn of the loop over `oldbans`, from the last one to the first: `erased` is what is left
behind the entry `it`. The base of the reverse iterator is the entry behind; there has to be one if
it is erased. -/
def mergeOne (it : Netban) (erased netbans : List Netban) : Option (List Netban × List Netban) :=
  let newban := findBan netbans it
  if newban.isSome ∨ it.persist then
    let netbans :=
      match newban with
      | some i => netbans.set i it
      | none => netbans ++ [it]
    match erased with
    | [] => none
    | _ :: erased => some (it :: erased, netbans)
  else some (it :: erased, netbans)

/-- The loop: what is left of `oldbans`, and the bans. -/
def mergeLoop : List Netban → List Netban → Option (List Netban × List Netban)
  | [], netbans => some ([], netbans)
  | it :: behind, netbans => (mergeLoop behind netbans).bind fun p => mergeOne it p.1 p.2

/-- `merge_pushed_bans()`: the bans afterwards, and those that are reported as removed. Nothing can
be said when the loop erases at the end of the list. -/
def mergePushedBans (s : Bans) : Option (Bans × List Netban) :=
  match s.stack with
  | [] => some (s, [])
  | oldbans :: _ =>
    (mergeLoop oldbans s.netbans).map fun p => ({ s with netbans := p.2 }, p.1)

/-- A ban with an address and a mask that are valid. -/
structure Proper (bans : List Netban) : Prop where
  valid : ∀ nb ∈ bans, nb.isValid = true
  distinct : (bans.map fun nb => (nb.ip, nb.mask)).Nodup

/-- The bans that `add_ban` makes, from an empty list. -/
def addBans (adds : List (Option Prefix × Bool × Text)) : List Netban :=
  adds.foldl (fun netbans a => addBan netbans a.1 a.2.1 a.2.2) []

/-- What should be the bans and the report, where `pushed` was put aside and `current` are the
bans: every current one, with the record of the pushed one that is the same; the pushed ones that
persist and are not the same as a current one; and no other, each address and mask once. The other
pushed ones are reported. -/
structure Merged (pushed current netbans removed : List Netban) : Prop where
  distinct : (netbans.map fun nb => (nb.ip, nb.mask)).Nodup
  netbans : ∀ nb, nb ∈ netbans ↔ (∃ c ∈ current, nb = (pushed.find? (·.same c)).getD c) ∨
    (nb ∈ pushed ∧ nb.persist = true ∧ ∀ c ∈ current, nb.same c = false)
  removed : ∀ nb, nb ∈ removed ↔
    nb ∈ pushed ∧ nb.persist = false ∧ ∀ c ∈ current, nb.same c = false

/-- The ban is neither to persist nor the same as a current one. -/
def Drops (current : List Netban) (nb : Netban) : Prop :=
  nb.persist = false ∧ ∀ c ∈ current, nb.same c = false

/-! ## The lists -/

variable {bans current oldbans behind front erased : List Netban} {nb it : Netban}

theorem same_iff (nb nb' : Netban) :
    nb.same nb' = true ↔ (nb.ip, nb.mask) = (nb'.ip, nb'.mask) := by
  rw [Netban.same, Bool.and_eq_true_iff, beq_iff_eq, beq_iff_eq, Prod.mk.injEq]

theorem same_comm (nb nb' : Netban) : nb.same nb' = nb'.same nb := by
  rw [Bool.eq_iff_iff, same_iff, same_iff]
  exact eq_comm

/-- A ban is found if there is one that is the same. -/
theorem isSome_findBan (hvalid : nb.isValid = true) :
    (findBan current nb).isSome = true ↔ ∃ c ∈ current, nb.same c = true := by
  rw [findBan, if_neg (not_not.mpr hvalid), List.findIdx?_isSome, List.any_eq_true]
  refine exists_congr fun c => and_congr_right fun _ => ?_
  rw [same_comm]

theorem Proper.addBan (h : Proper bans) (addr : Option Prefix) (persist : Bool) (reason : Text) :
    Proper (addBan bans addr persist reason) := by
  unfold NetBans.addBan
  dsimp only
  by_cases hvalid : (netban addr persist).isValid = true
  · rw [if_pos hvalid]
    by_cases hfound : (findBan bans (netban addr persist)).isSome = true
    · rwa [if_pos hfound]
    · rw [if_neg hfound]
      refine ⟨fun nb hnb => ?_, ?_⟩
      · rcases List.mem_append.mp hnb with hold | hnew
        · exact h.valid nb hold
        · rw [List.mem_singleton.mp hnew]
          exact hvalid
      · rw [List.map_append, List.nodup_append]
        refine ⟨h.distinct, List.nodup_singleton _, fun a ha b hb hab => hfound ?_⟩
        obtain ⟨nb, hnb, rfl⟩ := List.mem_map.mp ha
        refine (isSome_findBan hvalid).mpr ⟨nb, hnb, (same_iff _ _).mpr ?_⟩
        rw [hab, List.mem_singleton.mp hb]
        rfl
  · rwa [if_neg hvalid]

/-- The bans that are added are valid, and each is there once. -/
theorem proper_addBans (adds : List (Option Prefix × Bool × Text)) : Proper (addBans adds) := by
  have hfold (bans : List Netban) (h : Proper bans) :
      Proper (adds.foldl (fun netbans a => addBan netbans a.1 a.2.1 a.2.2) bans) := by
    induction adds generalizing bans with
    | nil => exact h
    | cons a adds ih => exact ih _ (h.addBan a.1 a.2.1 a.2.2)
  exact hfold [] ⟨by simp, List.nodup_nil⟩

/-! ## The loop -/

/-- A ban that is dropped is passed by. -/
theorem mergeOne_of_drops (hvalid : it.isValid = true) (h : Drops current it)
    (erased : List Netban) : mergeOne it erased current = some (it :: erased, current) := by
  have hnone : ¬ ((findBan current it).isSome = true ∨ it.persist = true) := by
    rintro (hfound | hpersist)
    · obtain ⟨c, hc, hsame⟩ := (isSome_findBan hvalid).mp hfound
      rw [h.2 c hc] at hsame
      exact Bool.false_ne_true hsame
    · rw [h.1] at hpersist
      exact Bool.false_ne_true hpersist
  rw [mergeOne, if_neg hnone]

/-- A ban that is not dropped has the entry behind it erased. -/
theorem mergeOne_of_not_drops (hvalid : it.isValid = true) (h : ¬ Drops current it) :
    mergeOne it [] current = none ∧ ∀ next erased, ∃ netbans,
      mergeOne it (next :: erased) current = some (it :: erased, netbans) := by
  have hsome : (findBan current it).isSome = true ∨ it.persist = true := by
    by_contra hnot
    obtain ⟨hfound, hpersist⟩ := not_or.mp hnot
    refine h ⟨Bool.eq_false_iff.mpr hpersist, fun c hc => Bool.eq_false_iff.mpr fun hsame => ?_⟩
    exact hfound ((isSome_findBan hvalid).mpr ⟨c, hc, hsame⟩)
  refine ⟨?_, fun next erased => ⟨match findBan current it with
    | some i => current.set i it
    | none => current ++ [it], ?_⟩⟩
  · rw [mergeOne, if_pos hsome]
  · rw [mergeOne, if_pos hsome]

/-- Where all bans are dropped, the loop leaves everything as it is. -/
theorem mergeLoop_of_drops (hvalid : ∀ nb ∈ oldbans, nb.isValid = true)
    (h : ∀ nb ∈ oldbans, Drops current nb) :
    mergeLoop oldbans current = some (oldbans, current) := by
  induction oldbans with
  | nil => rfl
  | cons it behind ih =>
    rw [mergeLoop, ih (fun nb hnb => hvalid nb (List.mem_cons_of_mem it hnb))
      (fun nb hnb => h nb (List.mem_cons_of_mem it hnb)), Option.bind_some]
    exact mergeOne_of_drops (hvalid it List.mem_cons_self) (h it List.mem_cons_self) behind

/-- A ban that has been erased does not come back. -/
theorem not_mem_mergeOne {p : List Netban × List Netban} (hne : nb ≠ it) (herased : nb ∉ erased)
    (h : mergeOne it erased current = some p) : nb ∉ p.1 := by
  have hnot {l : List Netban} (hl : nb ∉ l) : nb ∉ it :: l := by
    intro hmem
    rcases List.mem_cons.mp hmem with heq | hlater
    · exact hne heq
    · exact hl hlater
  unfold mergeOne at h
  dsimp only at h
  split at h
  · split at h
    · cases h
    · rw [← Option.some.inj h]
      exact hnot fun hmem => herased (List.mem_cons_of_mem _ hmem)
  · rw [← Option.some.inj h]
    exact hnot herased

theorem not_mem_mergeLoop (hfront : nb ∉ front)
    (hbehind : ∀ p, mergeLoop behind current = some p → nb ∉ p.1) :
    ∀ p, mergeLoop (front ++ behind) current = some p → nb ∉ p.1 := by
  induction front with
  | nil => exact hbehind
  | cons it front ih =>
    intro p hp
    obtain ⟨hne, hfront⟩ := not_or.mp (mt List.mem_cons.mpr hfront)
    obtain ⟨p', hp', hone⟩ := Option.bind_eq_some_iff.mp hp
    exact not_mem_mergeOne hne (ih hfront p' hp') hone

/-- The last one of those in a list that are not dropped. -/
theorem exists_last_not_drops (h : ¬ ∀ nb ∈ oldbans, Drops current nb) :
    ∃ front it behind, oldbans = front ++ it :: behind ∧ ¬ Drops current it ∧
      ∀ nb ∈ behind, Drops current nb := by
  induction oldbans with
  | nil => exact absurd (fun nb hnb => absurd hnb List.not_mem_nil) h
  | cons first rest ih =>
    by_cases hrest : ∀ nb ∈ rest, Drops current nb
    · refine ⟨[], first, rest, rfl, fun hfirst => h fun nb hnb => ?_, hrest⟩
      rcases List.mem_cons.mp hnb with rfl | hlater
      · exact hfirst
      · exact hrest nb hlater
    · obtain ⟨front, it, behind, rfl, hit, hbehind⟩ := ih hrest
      exact ⟨first :: front, it, behind, rfl, hit, hbehind⟩

/-- The entry behind the last one that is not dropped is dropped, and not reported. -/
theorem mergeLoop_of_not_drops (hproper : Proper oldbans)
    (h : ¬ ∀ nb ∈ oldbans, Drops current nb) (p : List Netban × List Netban)
    (hp : mergeLoop oldbans current = some p) :
    ∃ nb ∈ oldbans, Drops current nb ∧ nb ∉ p.1 := by
  obtain ⟨front, it, behind, rfl, hit, hbehind⟩ := exists_last_not_drops h
  have hvalid (nb : Netban) (hnb : nb ∈ it :: behind) : nb.isValid = true :=
    hproper.valid nb (List.mem_append_right front hnb)
  have hnodup : (front ++ it :: behind).Nodup := List.Nodup.of_map _ hproper.distinct
  obtain ⟨hend, herase⟩ := mergeOne_of_not_drops (hvalid it List.mem_cons_self) hit
  have hloop : mergeLoop (it :: behind) current = mergeOne it behind current := by
    rw [mergeLoop, mergeLoop_of_drops (fun nb hnb => hvalid nb (List.mem_cons_of_mem it hnb))
      hbehind, Option.bind_some]
  cases behind with
  | nil =>
    -- Nothing is behind the last entry.
    have hall (front : List Netban) : mergeLoop (front ++ [it]) current = none := by
      induction front with
      | nil => rw [List.nil_append, hloop, hend]
      | cons first front ih => rw [List.cons_append, mergeLoop, ih, Option.bind_none]
    rw [hall front] at hp
    cases hp
  | cons next behind =>
    obtain ⟨hfront, hrest, hdisjoint⟩ := List.nodup_append.mp hnodup
    obtain ⟨hit', hrest'⟩ := List.nodup_cons.mp hrest
    have hnext : next ∈ it :: next :: behind := List.mem_cons_of_mem it List.mem_cons_self
    refine ⟨next, List.mem_append_right front hnext, hbehind next List.mem_cons_self, ?_⟩
    refine not_mem_mergeLoop (fun hmem => hdisjoint next hmem next hnext rfl) (fun p hp => ?_) p hp
    obtain ⟨netbans, hone⟩ := herase next behind
    rw [hloop, hone] at hp
    rw [← Option.some.inj hp]
    intro hmem
    rcases List.mem_cons.mp hmem with heq | hlater
    · exact hit' (heq ▸ List.mem_cons_self)
    · exact (List.nodup_cons.mp hrest').1 hlater

/-! ## The merge of any lists -/

/-- The merge of the list at the front of the queue into bans that have been added is as it should
be if and only if all bans of that list are dropped. -/
theorem merge_iff (s : Bans) (pushed : List Netban) (rest : List (List Netban))
    (adds : List (Option Prefix × Bool × Text)) (hstack : s.stack = pushed :: rest)
    (hpushed : Proper pushed) (hnetbans : s.netbans = addBans adds) :
    (∃ s' removed, mergePushedBans s = some (s', removed) ∧
      Merged pushed s.netbans s'.netbans removed) ↔ ∀ nb ∈ pushed, Drops s.netbans nb := by
  have hcurrent : Proper s.netbans := hnetbans ▸ proper_addBans adds
  rw [mergePushedBans, hstack]
  dsimp only
  constructor
  · rintro ⟨s', removed, hmerge, hmerged⟩
    by_contra hnot
    obtain ⟨p, hp, heq⟩ := Option.map_eq_some_iff.mp hmerge
    obtain ⟨-, rfl⟩ := Prod.mk.inj heq
    obtain ⟨nb, hnb, hdrops, hmissing⟩ := mergeLoop_of_not_drops hpushed hnot p hp
    exact hmissing ((hmerged.removed nb).mpr ⟨hnb, hdrops⟩)
  · intro hdrops
    refine ⟨s, pushed, ?_, hcurrent.distinct, fun nb => ?_, fun nb => ?_⟩
    · rw [mergeLoop_of_drops hpushed.valid hdrops, ← hstack]
      rfl
    · have hfind (c : Netban) (hc : c ∈ s.netbans) : pushed.find? (·.same c) = none := by
        refine List.find?_eq_none.mpr fun nb hnb hsame => ?_
        rw [(hdrops nb hnb).2 c hc] at hsame
        exact Bool.false_ne_true hsame
      constructor
      · intro hnb
        exact .inl ⟨nb, hnb, by rw [hfind nb hnb]; rfl⟩
      · rintro (⟨c, hc, rfl⟩ | ⟨hnb, hpersist, -⟩)
        · rwa [hfind c hc]
        · rw [(hdrops nb hnb).1] at hpersist
          exact absurd hpersist Bool.false_ne_true
    · exact ⟨fun hnb => ⟨hnb, hdrops nb hnb⟩, fun h => h.1⟩

/-- Two bans are put aside, and the first one is added again. -/
def firstAgain : Bans :=
  ⟨addBans [(some ⟨0x0A000000, 16⟩, false, [])],
    [addBans [(some ⟨0x0A000000, 16⟩, false, []), (some ⟨0x0B000000, 16⟩, false, [])]]⟩

/-- The second ban is gone, but the first one is reported. -/
theorem first_reported : ∃ s' removed, mergePushedBans firstAgain = some (s', removed) ∧
    ¬ Merged (addBans [(some ⟨0x0A000000, 16⟩, false, []), (some ⟨0x0B000000, 16⟩, false, [])])
      firstAgain.netbans s'.netbans removed := by
  refine ⟨firstAgain, addBans [(some ⟨0x0A000000, 16⟩, false, [])], rfl, fun h => ?_⟩
  have hfirst := ((h.removed _).mp List.mem_cons_self).2.2
  exact absurd (hfirst _ List.mem_cons_self) (by decide)

/-- A ban is put aside, and another one is added. -/
theorem merge_iff_other : ∃ s' removed,
    mergePushedBans ⟨addBans [(some ⟨0x0B000000, 16⟩, false, [])],
      [addBans [(some ⟨0x0A000000, 16⟩, false, [])]]⟩ = some (s', removed) ∧
    Merged (addBans [(some ⟨0x0A000000, 16⟩, false, [])])
      (addBans [(some ⟨0x0B000000, 16⟩, false, [])]) s'.netbans removed := by
  refine (merge_iff ⟨addBans [(some ⟨0x0B000000, 16⟩, false, [])],
    [addBans [(some ⟨0x0A000000, 16⟩, false, [])]]⟩ _ [] _ rfl (proper_addBans _) rfl).mpr ?_
  intro nb hnb
  cases List.mem_singleton.mp hnb
  refine ⟨rfl, fun c hc => ?_⟩
  cases List.mem_singleton.mp hc
  decide

end NetBans

end Zuckerserv
