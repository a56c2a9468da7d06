import Mathlib.Data.Finset.Filter
import Zuckerserv.Fps.BotOwners
import Zuckerserv.Lib.Balance
import Zuckerserv.Lib.Loop

/-!
# Bots are spread evenly

`checkai` calls `reassignai` until it returns false. Each call that returns true takes one bot
from the client with the most bots to the client with the fewest.

* `reassigns`, `reassignall` — what `reassignai` returns, and the loop.
* `Consistent` — each bot is in the list of its owner, once, and in no other.
* `botsOf_shiftai`, `Consistent.shiftai` — the lists after a bot has got another owner.
* `energy_reassignai` — the measure of the loop.
* `reassignall_even` — the loop ends, with even loads and the same bots.
-/

namespace Zuckerserv

namespace Aiman

/-! ## The code -/

/-- What `reassignai` returns. -/
def reassigns (s : Aiman) : Bool :=
  match s.best (fun n most => n > most) none, s.best (fun n least => n < least) none with
  | some hi, some lo =>
    if (s.botsOf hi).length - (s.botsOf lo).length > 1 then (s.botsOf hi).getLast?.isSome
    else false
  | _, _ => false

/-- `while(reassignai());`. The last call returns false and changes nothing. -/
def reassignall (fuel : Nat) (s : Aiman) : Aiman :=
  Loop.whileDo (fun s => s.reassigns = true) reassignai fuel s

/-! ## The clients with the most and the fewest bots -/

/-- A client that is valid and no valid client is better, or nothing if no client is valid. -/
def IsBest (s : Aiman) (better : Nat → Nat → Bool) (clients : List Cn) : Option Cn → Prop
  | none => ∀ c ∈ clients, s.valid c = false
  | some o => (o ∈ clients ∧ s.valid o = true) ∧ ∀ c ∈ clients, s.valid c = true →
      better (s.botsOf c).length (s.botsOf o).length = false

theorem best_spec (s : Aiman) {better : Nat → Nat → Bool} (hirr : ∀ n, better n n = false)
    (htrans : ∀ n m k, better n m = true → better k m = false → better k n = false) :
    s.IsBest better s.clients (s.best better none) := by
  unfold best
  induction s.clients using List.reverseRecOn with
  | nil => exact nofun
  | append_singleton clients cn ih =>
    have hlast {p : Cn → Prop} (hold : ∀ c ∈ clients, p c) (hnew : p cn) :
        ∀ c ∈ clients ++ [cn], p c := fun c hc =>
      (List.mem_append.mp hc).elim (hold c) fun hc => List.mem_singleton.mp hc ▸ hnew
    rw [List.foldl_append, List.foldl_cons, List.foldl_nil]
    generalize clients.foldl _ none = least at ih ⊢
    by_cases hvalid : s.valid cn = true
    · rw [if_neg (by simp [hvalid])]
      cases least with
      | none =>
        refine ⟨⟨by simp, hvalid⟩, hlast (fun c hc hcvalid => ?_) fun _ => hirr _⟩
        rw [ih c hc] at hcvalid
        cases hcvalid
      | some o =>
        obtain ⟨⟨hmem, hovalid⟩, hbest⟩ := ih
        dsimp only
        split
        · rename_i hbetter
          exact ⟨⟨by simp, hvalid⟩, hlast
            (fun c hc hcvalid => htrans _ _ _ hbetter (hbest c hc hcvalid)) fun _ => hirr _⟩
        · rename_i hworse
          exact ⟨⟨List.mem_append_left _ hmem, hovalid⟩,
            hlast hbest fun _ => Bool.eq_false_iff.mpr hworse⟩
    · rw [if_pos (.inl hvalid)]
      cases least with
      | none => exact hlast ih (Bool.eq_false_iff.mpr hvalid)
      | some o =>
        obtain ⟨⟨hmem, hovalid⟩, hbest⟩ := ih
        exact ⟨⟨List.mem_append_left _ hmem, hovalid⟩,
          hlast hbest fun hcvalid => absurd hcvalid hvalid⟩

/-- The bots of any two clients that may run bots differ by at most one. -/
def Even (s : Aiman) : Prop := ∀ c ∈ s.clients, ∀ d ∈ s.clients, s.valid c = true →
  s.valid d = true → (s.botsOf c).length ≤ (s.botsOf d).length + 1

/-- The client with the most bots, and the client with the fewest. -/
structure Extremes (s : Aiman) (hi lo : Cn) : Prop where
  hi_mem : hi ∈ s.clients
  lo_mem : lo ∈ s.clients
  hi_valid : s.valid hi = true
  lo_valid : s.valid lo = true
  hi_most : ∀ c ∈ s.clients, s.valid c = true → (s.botsOf c).length ≤ (s.botsOf hi).length
  lo_least : ∀ c ∈ s.clients, s.valid c = true → (s.botsOf lo).length ≤ (s.botsOf c).length

/-- Either no bot has to go and the loads are even, or the last bot of the client with the most
bots goes to the client with the fewest. -/
theorem reassigns_cases (s : Aiman) : (s.reassigns = false ∧ s.Even) ∨
    (s.reassigns = true ∧ ∃ hi lo a, s.Extremes hi lo ∧
      (s.botsOf lo).length + 1 < (s.botsOf hi).length ∧ a ∈ s.botsOf hi ∧
      s.reassignai = s.shiftai a (some lo)) := by
  have hmost : s.IsBest (fun n most => n > most) s.clients _ :=
    s.best_spec (by simp) (by simp; omega)
  have hleast : s.IsBest (fun n least => n < least) s.clients _ :=
    s.best_spec (by simp) (by simp; omega)
  unfold reassigns reassignai
  cases hhi : s.best (fun n most => n > most) none with
  | none =>
    rw [hhi] at hmost
    refine .inl ⟨rfl, fun c hc d _ hcvalid => ?_⟩
    rw [hmost c hc] at hcvalid
    cases hcvalid
  | some hi =>
    cases hlo : s.best (fun n least => n < least) none with
    | none =>
      rw [hlo] at hleast
      refine .inl ⟨rfl, fun c hc d _ hcvalid => ?_⟩
      rw [hleast c hc] at hcvalid
      cases hcvalid
    | some lo =>
      rw [hhi] at hmost
      rw [hlo] at hleast
      have hext : s.Extremes hi lo := by
        refine ⟨hmost.1.1, hleast.1.1, hmost.1.2, hleast.1.2, fun c hc hcvalid => ?_,
          fun c hc hcvalid => ?_⟩
        · exact Nat.le_of_not_gt (of_decide_eq_false (hmost.2 c hc hcvalid))
        · exact Nat.le_of_not_gt (of_decide_eq_false (hleast.2 c hc hcvalid))
      dsimp only
      by_cases hgap : (s.botsOf hi).length - (s.botsOf lo).length > 1
      · rw [if_pos hgap, if_pos hgap]
        cases ha : (s.botsOf hi).getLast? with
        | none =>
          rw [List.getLast?_eq_none_iff.mp ha] at hgap
          simp at hgap
        | some a => exact .inr ⟨rfl, hi, lo, a, hext, by omega, List.mem_of_getLast? ha, rfl⟩
      · rw [if_neg hgap]
        refine .inl ⟨rfl, fun c hc d hd hcvalid hdvalid => ?_⟩
        have hc' := hext.hi_most c hc hcvalid
        have hd' := hext.lo_least d hd hdvalid
        omega

/-! ## A bot gets another owner -/

/-- Each bot is in the list of its owner, once, and in no other; and the lists have no bots that
are not in the table. -/
def Consistent (s : Aiman) : Prop := ∀ a o, (s.botsOf o).count a =
  if some a ∈ s.bots ∧ (s.heap a).ownernum = some o then 1 else 0

theorem Consistent.mem_iff {s : Aiman} (h : s.Consistent) (a : Address) (o : Cn) :
    a ∈ s.botsOf o ↔ some a ∈ s.bots ∧ (s.heap a).ownernum = some o := by
  rw [← List.count_pos_iff, h a o]
  split <;> simp [*]

theorem isSome_of_valid {s : Aiman} {o : Cn} (h : s.valid o = true) :
    (s.info o).isSome = true := by
  cases hinfo : s.info o with
  | none => simp [valid, hinfo] at h
  | some ci => rfl

theorem valid_modifyBots (s : Aiman) (o x : Cn) (f : List Address → List Address) :
    (s.modifyBots o f).valid x = s.valid x := by
  show (Function.update s.info o _ x).any _ = _
  by_cases hx : x = o
  · subst hx
    rw [Function.update_self, Option.any_map]
    rfl
  · rw [Function.update_of_ne hx]
    rfl

theorem valid_unlist (s : Aiman) (a : Address) (x : Cn) : (s.unlist a).valid x = s.valid x := by
  unfold unlist
  split
  · rfl
  · exact s.valid_modifyBots _ x _

theorem valid_shiftai (s : Aiman) (a : Address) (lo x : Cn) :
    (s.shiftai a (some lo)).valid x = s.valid x :=
  (valid_modifyBots _ lo x (· ++ [a])).trans (s.valid_unlist a x)

theorem heap_shiftai (s : Aiman) (a : Address) (lo : Cn) :
    (s.shiftai a (some lo)).heap = Function.update s.heap a ⟨some lo, 2⟩ := by
  show Function.update (s.unlist a).heap a _ = _
  rw [unlist_heap]

theorem bots_shiftai (s : Aiman) (a : Address) (lo : Cn) :
    (s.shiftai a (some lo)).bots = s.bots := unlist_bots s a

/-- The lists after a bot has gone from a client to another one. -/
theorem botsOf_shiftai {s : Aiman} {a : Address} {hi lo : Cn}
    (howner : (s.heap a).ownernum = some hi)
    (hhi : (s.info hi).isSome = true) (hlo : (s.info lo).isSome = true) (hne : hi ≠ lo) (x : Cn) :
    (s.shiftai a (some lo)).botsOf x =
      if x = hi then removeobj (s.botsOf hi) a
      else if x = lo then s.botsOf lo ++ [a] else s.botsOf x := by
  have hunlist (x : Cn) : (s.unlist a).botsOf x =
      if x = hi then removeobj (s.botsOf hi) a else s.botsOf x := by
    unfold unlist
    rw [howner]
    dsimp only
    rw [botsOf_modifyBots, hhi]
    simp
  show (((s.unlist a).setBot a ⟨some lo, 2⟩).modifyBots lo (· ++ [a])).botsOf x = _
  have hinfo : (((s.unlist a).setBot a ⟨some lo, 2⟩).info lo).isSome = true :=
    (info_unlist s a lo).trans hlo
  have hsame (x : Cn) : ((s.unlist a).setBot a ⟨some lo, 2⟩).botsOf x = (s.unlist a).botsOf x := rfl
  rw [botsOf_modifyBots, hinfo, hsame, hsame, hunlist, hunlist, if_neg hne.symm]
  by_cases hx : x = lo
  · subst hx
    simp [hne.symm]
  · simp [hx]

theorem count_removeobj (l : List Address) (a c : Address) :
    (removeobj l a).count c = if c = a then 0 else l.count c := by
  by_cases hc : c = a
  · rw [if_pos hc, hc]
    exact List.count_eq_zero.mpr fun h => (mem_removeobj.mp h).2 rfl
  · rw [if_neg hc]
    exact List.count_filter (by simpa using hc)

/-- Ownership stays consistent when a bot goes to another client. -/
theorem Consistent.shiftai {s : Aiman} (h : s.Consistent) {a : Address} {hi lo : Cn}
    (ha : a ∈ s.botsOf hi) (hhi : (s.info hi).isSome = true) (hlo : (s.info lo).isSome = true)
    (hne : hi ≠ lo) : (s.shiftai a (some lo)).Consistent := by
  obtain ⟨htable, howner⟩ := (h.mem_iff a hi).mp ha
  intro c o
  rw [botsOf_shiftai howner hhi hlo hne, heap_shiftai, bots_shiftai]
  by_cases hc : c = a
  · subst hc
    rw [Function.update_self]
    by_cases hohi : o = hi
    · subst hohi
      rw [if_pos rfl, count_removeobj, if_pos rfl,
        if_neg fun h => hne (Option.some_inj.mp h.2).symm]
    · have hother : (s.botsOf o).count c = 0 := by
        rw [h c o, if_neg]
        rintro ⟨-, ho⟩
        exact hohi (Option.some_inj.mp (ho.symm.trans howner))
      rw [if_neg hohi]
      by_cases holo : o = lo
      · subst holo
        rw [if_pos rfl, if_pos ⟨htable, rfl⟩, List.count_append, hother, List.count_singleton_self]
      · rw [if_neg holo, hother, if_neg fun h => holo (Option.some_inj.mp h.2).symm]
  · rw [Function.update_of_ne hc, ← h c o]
    by_cases hohi : o = hi
    · rw [if_pos hohi, count_removeobj, if_neg hc, hohi]
    · rw [if_neg hohi]
      by_cases holo : o = lo
      · have hnew : [a].count c = 0 := List.count_eq_zero.mpr (by simpa using hc)
        rw [if_pos holo, holo, List.count_append, hnew, Nat.add_zero]
      · rw [if_neg holo]

/-! ## The loop -/

/-- The number of bots of a client. -/
def load (s : Aiman) (o : Cn) : Nat := (s.botsOf o).length

/-- The places among which bots are shifted: the clients that may run bots. -/
def places (s : Aiman) : Finset Cn := s.clients.toFinset.filter (s.valid · = true)

/-- What the loop keeps: consistent ownership, the clients, the table of bots, who is in charge of
some bot, and which bots have an owner. -/
structure Keeps (s t : Aiman) : Prop where
  consistent : t.Consistent
  clients : t.clients = s.clients
  valid : ∀ o, t.valid o = s.valid o
  bots : t.bots = s.bots
  owned : ∀ a, (∃ o, a ∈ t.botsOf o) ↔ ∃ o, a ∈ s.botsOf o

/-- A shifted bot is a unit of load that moves. -/
theorem Consistent.move {s : Aiman} (h : s.Consistent) {a : Address} {hi lo : Cn}
    (ha : a ∈ s.botsOf hi) (hhi : (s.info hi).isSome = true) (hlo : (s.info lo).isSome = true)
    (hne : hi ≠ lo) : Balance.Move hi lo s.load (s.shiftai a (some lo)).load := by
  obtain ⟨-, howner⟩ := (h.mem_iff a hi).mp ha
  have hbotsOf := botsOf_shiftai howner hhi hlo hne
  refine ⟨?_, ?_, fun x hxhi hxlo => ?_⟩
  · have hnodup : (s.botsOf hi).Nodup := List.nodup_iff_count_le_one.mpr fun c => by
      rw [h c hi]
      split <;> omega
    show ((s.shiftai a (some lo)).botsOf hi).length + 1 = _
    rw [hbotsOf, if_pos rfl]
    exact Matched.length_removeobj hnodup ha
  · show ((s.shiftai a (some lo)).botsOf lo).length = _
    rw [hbotsOf, if_neg hne.symm, if_pos rfl, List.length_append]
    rfl
  · show ((s.shiftai a (some lo)).botsOf x).length = _
    rw [hbotsOf, if_neg hxhi, if_neg hxlo]
    rfl

/-- Another owner for a bot: it has one, before and after. -/
theorem Consistent.keeps {s : Aiman} (h : s.Consistent) {a : Address} {hi lo : Cn}
    (ha : a ∈ s.botsOf hi) (hhi : (s.info hi).isSome = true) (hlo : (s.info lo).isSome = true)
    (hne : hi ≠ lo) : s.Keeps (s.shiftai a (some lo)) := by
  obtain ⟨htable, howner⟩ := (h.mem_iff a hi).mp ha
  have hconsistent := h.shiftai ha hhi hlo hne
  refine ⟨hconsistent, Matched.shiftai_clients s a _, s.valid_shiftai a lo, bots_shiftai s a lo,
    fun c => ?_⟩
  simp only [hconsistent.mem_iff, h.mem_iff, bots_shiftai, heap_shiftai]
  by_cases hc : c = a
  · subst hc
    rw [Function.update_self]
    exact ⟨fun _ => ⟨hi, htable, howner⟩, fun _ => ⟨lo, htable, rfl⟩⟩
  · rw [Function.update_of_ne hc]

/-- A call that returns true moves one bot. -/
theorem Consistent.reassignai {s : Aiman} (h : s.Consistent) (hmoved : s.reassigns = true) :
    s.Keeps s.reassignai ∧ Balance.energy s.places s.reassignai.load <
      Balance.energy s.places s.load := by
  rcases s.reassigns_cases with ⟨hno, -⟩ | ⟨-, hi, lo, a, hext, hgap, ha, heq⟩
  · rw [hno] at hmoved
    cases hmoved
  have hne : hi ≠ lo := by
    rintro rfl
    omega
  have hhi := isSome_of_valid hext.hi_valid
  have hlo := isSome_of_valid hext.lo_valid
  rw [heq]
  refine ⟨h.keeps ha hhi hlo hne, (h.move ha hhi hlo hne).energy_lt ?_ ?_ hgap⟩
  · simp [places, hext.hi_mem, hext.hi_valid]
  · simp [places, hext.lo_mem, hext.lo_valid]

theorem Keeps.refl {s : Aiman} (h : s.Consistent) : s.Keeps s :=
  ⟨h, rfl, fun _ => rfl, rfl, fun _ => Iff.rfl⟩

theorem Keeps.trans {s t u : Aiman} (hst : s.Keeps t) (htu : t.Keeps u) : s.Keeps u :=
  ⟨htu.consistent, htu.clients.trans hst.clients, fun o => (htu.valid o).trans (hst.valid o),
    htu.bots.trans hst.bots, fun a => (htu.owned a).trans (hst.owned a)⟩

theorem Keeps.places {s t : Aiman} (h : s.Keeps t) : t.places = s.places := by
  unfold Aiman.places
  rw [h.clients]
  exact Finset.filter_congr fun o _ => by rw [h.valid]

/-- From consistent ownership, the loop of `checkai` ends: after enough calls `reassignai` returns
false. Then the bots of any two clients that may run bots differ by at most one; the bots, and
those of them that have an owner, are the same as before, and each is in the list of its owner,
once, and in no other. -/
theorem reassignall_even {s : Aiman} (h : s.Consistent) : ∃ n, ∀ fuel, n ≤ fuel →
    (s.reassignall fuel).reassigns = false ∧ (s.reassignall fuel).Even ∧
      s.Keeps (s.reassignall fuel) := by
  have hstep (t : Aiman) (ht : s.Keeps t) (hmoved : t.reassigns = true) : s.Keeps t.reassignai :=
    ht.trans (ht.consistent.reassignai hmoved).1
  have hdown (t : Aiman) (ht : s.Keeps t) (hmoved : t.reassigns = true) :
      Balance.energy s.places t.reassignai.load < Balance.energy s.places t.load := by
    rw [← ht.places]
    exact (ht.consistent.reassignai hmoved).2
  refine ⟨Balance.energy s.places s.load + 1, fun fuel hfuel => ?_⟩
  have hkeeps : s.Keeps (s.reassignall fuel) := Loop.whileDo_inv hstep (Keeps.refl h) fuel
  have hdone : ¬ (s.reassignall fuel).reassigns = true :=
    Loop.not_whileDo hstep (fun t => Balance.energy s.places t.load) hdown (Keeps.refl h) hfuel
  rcases (s.reassignall fuel).reassigns_cases with ⟨hstop, heven⟩ | ⟨hmoved, -⟩
  · exact ⟨hstop, heven, hkeeps⟩
  · exact absurd hmoved hdone

/-- Three bots of one client, and another client that has none. -/
def crowded : Aiman where
  bots := [some 0, some 1, some 2]
  heap := fun _ => ⟨some 0, 0⟩
  fresh := 3
  clients := [0, 1]
  info := fun cn => if cn = 0 then some { player with bots := [0, 1, 2] }
    else if cn = 1 then some player else none

theorem reassignall_even_crowded : ∃ n, ∀ fuel, n ≤ fuel →
    (crowded.reassignall fuel).reassigns = false ∧ (crowded.reassignall fuel).Even ∧
      crowded.Keeps (crowded.reassignall fuel) := by
  refine reassignall_even fun a o => ?_
  by_cases ho : o = 0
  · subst ho
    show [0, 1, 2].count a = _
    rcases a with _ | _ | _ | a
    · decide
    · decide
    · decide
    · rw [List.count_eq_zero.mpr (by simp), if_neg (by simp [crowded])]
  · have hnil : crowded.botsOf o = [] := by
      by_cases ho' : o = 1
      · subst ho'
        rfl
      · simp [crowded, botsOf, ho, ho']
    rw [hnil, if_neg fun h => ho (Option.some_inj.mp h.2).symm]
    rfl

end Aiman

end Zuckerserv
