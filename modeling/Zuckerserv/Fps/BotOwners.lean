import Mathlib.Data.List.Nodup
import Mathlib.Order.Nat
import Zuckerserv.Fps.Bots
import Zuckerserv.Lib.Machine

/-!
# The owners of the bots

A bot has the number of its owner, and the owner has a list of its bots. All operations keep
the two in step but one: when `addai` reuses the slot of a bot that has lost its owner, the bot
gets a number, but no list gets the bot.

* `Bijective`, `Matched` — that bots and lists match, and the invariant.
* `Matched.shift`, `Matched.newbot`, `Matched.deletebot` — the changes that keep it.
* `NoReuse` — no slot is reused.
* `ownership_bijective` — bots and lists match, in any run.
* `reused_bot` — a slot that is reused.
-/

namespace Zuckerserv

namespace Aiman

/-! ## Matching -/

/-- The bots in the table and the lists of the clients say the same: a bot has the number of an
owner if and only if that is a human client in the game, the bot is once in its list, and in
no other; and the lists have no bots that are not in the table. -/
structure Bijective (s : Aiman) : Prop where
  owner : ∀ a, some a ∈ s.bots → ∀ o, (s.heap a).ownernum = some o ↔
    o ∈ s.clients ∧ (s.botsOf o).count a = 1 ∧ ∀ o', o' ≠ o → a ∉ s.botsOf o'
  alive : ∀ o, ∀ a ∈ s.botsOf o, some a ∈ s.bots

/-- The invariant, while the clients in `C` may have bots. -/
structure Matched (C : Cn → Prop) (s : Aiman) : Prop where
  distinct : ∀ (i j : Nat) (a : Address), s.bots[i]? = some (some a) →
    s.bots[j]? = some (some a) → i = j
  fresh : ∀ a, some a ∈ s.bots → a < s.fresh
  owner : ∀ a o, some a ∈ s.bots → (s.heap a).ownernum = some o → C o ∧ a ∈ s.botsOf o
  listed : ∀ o, ∀ a ∈ s.botsOf o, some a ∈ s.bots ∧ (s.heap a).ownernum = some o
  nodup : ∀ o, (s.botsOf o).Nodup
  known : ∀ o, C o → (s.info o).isSome = true
  clients : ∀ o ∈ s.clients, C o

theorem Matched.bijective {s : Aiman} (h : s.Matched (· ∈ s.clients)) : s.Bijective := by
  refine ⟨fun a ha o => ⟨fun ho => ?_, fun ho => ?_⟩, fun o a ha => (h.listed o a ha).1⟩
  · obtain ⟨hC, hmem⟩ := h.owner a o ha ho
    refine ⟨hC, List.count_eq_one_of_mem (h.nodup o) hmem, fun o' hne hmem' => ?_⟩
    have ho' := (h.listed o' a hmem').2
    exact hne (Option.some_inj.mp (ho'.symm.trans ho))
  · have hmem : a ∈ s.botsOf o := List.count_pos_iff.mp (by omega)
    exact (h.listed o a hmem).2

/-- The lists of the clients after a change of one. -/
theorem botsOf_modifyBots (s : Aiman) (o x : Cn) (f : List Address → List Address) :
    (s.modifyBots o f).botsOf x =
      if x = o ∧ (s.info o).isSome = true then f (s.botsOf o) else s.botsOf x := by
  unfold botsOf modifyBots
  dsimp only
  by_cases hx : x = o
  · subst hx
    rw [Function.update_self]
    cases s.info x with
    | none => simp
    | some ci => simp
  · rw [Function.update_of_ne hx, if_neg fun h => hx h.1]

theorem info_modifyBots (s : Aiman) (o x : Cn) (f : List Address → List Address) :
    ((s.modifyBots o f).info x).isSome = (s.info x).isSome := by
  show (Function.update s.info o _ x).isSome = _
  by_cases hx : x = o
  · subst hx
    rw [Function.update_self, Option.isSome_map]
  · rw [Function.update_of_ne hx]

theorem removeobj_of_not_mem {l : List Address} {a : Address} (h : a ∉ l) : removeobj l a = l :=
  List.filter_eq_self.mpr fun b hb => by simpa using ne_of_mem_of_not_mem hb h

theorem mem_removeobj {l : List Address} {a b : Address} :
    b ∈ removeobj l a ↔ b ∈ l ∧ b ≠ a := by simp [removeobj]

theorem botsOf_unlist {C : Cn → Prop} {s : Aiman} (h : s.Matched C) (a : Address) (x : Cn) :
    (s.unlist a).botsOf x = removeobj (s.botsOf x) a := by
  have hother (hx : (s.heap a).ownernum ≠ some x) : removeobj (s.botsOf x) a = s.botsOf x :=
    removeobj_of_not_mem fun ha => hx (h.listed x a ha).2
  unfold unlist
  cases howner : (s.heap a).ownernum with
  | none => exact (hother (by rw [howner]; exact nofun)).symm
  | some o =>
    dsimp only
    rw [botsOf_modifyBots]
    by_cases hx : x = o
    · subst hx
      cases hinfo : s.info x with
      | none =>
        have hnil : s.botsOf x = [] := by
          unfold botsOf
          rw [hinfo]
          rfl
        rw [if_neg (by simp), hnil]
        rfl
      | some ci => rw [if_pos ⟨rfl, rfl⟩]
    · rw [if_neg fun h => hx h.1, hother]
      rw [howner]
      exact fun heq => hx (Option.some_inj.mp heq).symm

@[simp] theorem unlist_bots (s : Aiman) (a : Address) : (s.unlist a).bots = s.bots := by
  unfold unlist
  split <;> rfl

@[simp] theorem unlist_heap (s : Aiman) (a : Address) : (s.unlist a).heap = s.heap := by
  unfold unlist
  split <;> rfl

@[simp] theorem unlist_fresh (s : Aiman) (a : Address) : (s.unlist a).fresh = s.fresh := by
  unfold unlist
  split <;> rfl

@[simp] theorem unlist_clients (s : Aiman) (a : Address) : (s.unlist a).clients = s.clients := by
  unfold unlist
  split <;> rfl

theorem info_unlist (s : Aiman) (a : Address) (x : Cn) :
    ((s.unlist a).info x).isSome = (s.info x).isSome := by
  unfold unlist
  split
  · rfl
  · exact info_modifyBots s _ x _

/-! ## What keeps the match -/

namespace Matched

variable {C : Cn → Prop} {s : Aiman}

/-- A bot of the table gets another owner, or none; it goes from all lists to the new one's. -/
theorem shift (h : s.Matched C) {a : Address} (ha : some a ∈ s.bots) {s' : Aiman} {b : Bot}
    (hbots : s'.bots = s.bots) (hfresh : s'.fresh = s.fresh) (hclients : s'.clients = s.clients)
    (hheap : s'.heap = Function.update s.heap a b)
    (hinfo : ∀ x, (s'.info x).isSome = (s.info x).isSome)
    (hlist : ∀ x, s'.botsOf x = removeobj (s.botsOf x) a ++
      if b.ownernum = some x then [a] else [])
    (hb : ∀ o, b.ownernum = some o → C o) : s'.Matched C := by
  have hmem {c : Address} {x : Cn} (hc : c ≠ a) : c ∈ s'.botsOf x ↔ c ∈ s.botsOf x := by
    rw [hlist, List.mem_append, mem_removeobj]
    constructor
    · rintro (hold | hnew)
      · exact hold.1
      · split at hnew
        · exact absurd (List.mem_singleton.mp hnew) hc
        · cases hnew
    · exact fun hold => .inl ⟨hold, hc⟩
  have hself {x : Cn} : a ∈ s'.botsOf x ↔ b.ownernum = some x := by
    rw [hlist, List.mem_append, mem_removeobj]
    constructor
    · rintro (hold | hnew)
      · exact absurd rfl hold.2
      · split at hnew
        · assumption
        · cases hnew
    · intro hx
      rw [if_pos hx]
      exact .inr (List.mem_singleton.mpr rfl)
  refine ⟨?_, ?_, fun c o hc ho => ?_, fun o c hc => ?_, fun o => ?_, fun o ho => ?_, ?_⟩
  · rw [hbots]
    exact h.distinct
  · rw [hbots, hfresh]
    exact h.fresh
  · rw [hbots] at hc
    rw [hheap] at ho
    by_cases hca : c = a
    · subst hca
      rw [Function.update_self] at ho
      exact ⟨hb o ho, hself.mpr ho⟩
    · rw [Function.update_of_ne hca] at ho
      obtain ⟨hC, hmemo⟩ := h.owner c o hc ho
      exact ⟨hC, (hmem hca).mpr hmemo⟩
  · rw [hbots, hheap]
    by_cases hca : c = a
    · subst hca
      rw [Function.update_self]
      exact ⟨ha, hself.mp hc⟩
    · rw [Function.update_of_ne hca]
      exact h.listed o c ((hmem hca).mp hc)
  · rw [hlist]
    have hremoved : (removeobj (s.botsOf o) a).Nodup := (h.nodup o).filter _
    split
    · refine List.nodup_append.mpr ⟨hremoved, List.nodup_singleton a, fun c hc d hd => ?_⟩
      rw [List.mem_singleton.mp hd]
      exact (mem_removeobj.mp hc).2
    · rwa [List.append_nil]
  · rw [hinfo]
    exact h.known o ho
  · rw [hclients]
    exact h.clients

/-- The lists after a bot has got another owner. -/
theorem botsOf_shiftai (h : s.Matched C) (a : Address) {owner : Option Cn}
    (howner : ∀ o, owner = some o → C o) (x : Cn) :
    (s.shiftai a owner).botsOf x = removeobj (s.botsOf x) a ++
      if owner = some x then [a] else [] := by
  unfold Aiman.shiftai
  cases owner with
  | none =>
    rw [if_neg nofun, List.append_nil]
    exact botsOf_unlist h a x
  | some o =>
    show (((s.unlist a).setBot a ⟨some o, 2⟩).modifyBots o (· ++ [a])).botsOf x = _
    have hinfo : (((s.unlist a).setBot a ⟨some o, 2⟩).info o).isSome = true :=
      (info_unlist s a o).trans (h.known o (howner o rfl))
    rw [botsOf_modifyBots, hinfo]
    by_cases hx : x = o
    · subst hx
      rw [if_pos ⟨rfl, rfl⟩, if_pos rfl]
      exact congrArg (· ++ [a]) (botsOf_unlist h a x)
    · rw [if_neg fun h => hx h.1, if_neg fun h => hx (Option.some_inj.mp h).symm, List.append_nil]
      exact botsOf_unlist h a x

theorem shiftai_clients (s : Aiman) (a : Address) (owner : Option Cn) :
    (s.shiftai a owner).clients = s.clients := by
  cases owner with
  | none => exact unlist_clients s a
  | some o => exact unlist_clients s a

theorem shiftai (h : s.Matched C) {a : Address} (ha : some a ∈ s.bots) {owner : Option Cn}
    (howner : ∀ o, owner = some o → C o) : (s.shiftai a owner).Matched C := by
  have hlist := h.botsOf_shiftai a howner
  cases owner with
  | none =>
    refine h.shift ha (unlist_bots s a) (unlist_fresh s a) (unlist_clients s a)
      (b := ⟨none, 0⟩) ?_ (info_unlist s a) hlist nofun
    show Function.update (s.unlist a).heap a _ = _
    rw [unlist_heap]
  | some o =>
    refine h.shift ha (unlist_bots s a) (unlist_fresh s a) (unlist_clients s a)
      (b := ⟨some o, 2⟩) ?_ (fun x => ?_) hlist howner
    · show Function.update (s.unlist a).heap a _ = _
      rw [unlist_heap]
    · exact (info_modifyBots _ o x (· ++ [a])).trans (info_unlist s a x)

/-- A bot keeps its owner. -/
theorem setBot (h : s.Matched C) {a : Address} {b : Bot}
    (hb : b.ownernum = (s.heap a).ownernum) : (s.setBot a b).Matched C := by
  have hsame (c : Address) : ((s.setBot a b).heap c).ownernum = (s.heap c).ownernum := by
    show (Function.update s.heap a b c).ownernum = _
    by_cases hca : c = a
    · rw [hca, Function.update_self, hb]
    · rw [Function.update_of_ne hca]
  refine ⟨h.distinct, h.fresh, fun c o hc ho => ?_, fun o c hc => ?_, h.nodup, h.known, h.clients⟩
  · exact h.owner c o hc (hsame c ▸ ho)
  · exact ⟨(h.listed o c hc).1, (hsame c).trans (h.listed o c hc).2⟩

theorem mem_of_join {cn : Nat} {a : Address} (ha : (s.bots[cn]?).join = some a) :
    s.bots[cn]? = some (some a) := Option.join_eq_some_iff.mp ha

/-- A bot leaves the table and all lists. -/
theorem deletebot (h : s.Matched C) (cn : Nat) : (s.deletebot cn).Matched C := by
  unfold Aiman.deletebot
  cases ha : (s.bots[cn]?).join with
  | none => exact h
  | some a =>
    have hslot := mem_of_join ha
    have hold {i : Nat} {c : Address} (hi : (s.bots.set cn none)[i]? = some (some c)) :
        s.bots[i]? = some (some c) ∧ c ≠ a := by
      rw [List.getElem?_set] at hi
      split at hi
      · split at hi <;> cases hi
      · rename_i hne
        refine ⟨hi, ?_⟩
        rintro rfl
        exact hne (h.distinct cn i c hslot hi)
    have hmem {c : Address} : some c ∈ s.bots.set cn none ↔ some c ∈ s.bots ∧ c ≠ a := by
      constructor
      · intro hc
        obtain ⟨i, hi⟩ := List.getElem?_of_mem hc
        exact ⟨List.mem_of_getElem? (hold hi).1, (hold hi).2⟩
      · rintro ⟨hc, hne⟩
        obtain ⟨i, hi⟩ := List.getElem?_of_mem hc
        refine List.mem_of_getElem? (i := i) ?_
        rw [List.getElem?_set_ne, hi]
        rintro rfl
        exact hne (Option.some_inj.mp (Option.some_inj.mp (hi.symm.trans hslot)))
    have hlist (x : Cn) : Aiman.botsOf { s.unlist a with bots := s.bots.set cn none } x =
        removeobj (s.botsOf x) a := botsOf_unlist h a x
    refine ⟨fun i j c hi hj => h.distinct i j c (hold hi).1 (hold hj).1, fun c hc => ?_,
      fun c o hc ho => ?_, fun o c hc => ?_, fun o => ?_, fun o ho => ?_, ?_⟩
    · show c < (s.unlist a).fresh
      rw [unlist_fresh]
      exact h.fresh c (hmem.mp hc).1
    · have ho' : (s.heap c).ownernum = some o := by
        rw [← unlist_heap s a]
        exact ho
      obtain ⟨hC, hmemo⟩ := h.owner c o (hmem.mp hc).1 ho'
      rw [hlist]
      exact ⟨hC, mem_removeobj.mpr ⟨hmemo, (hmem.mp hc).2⟩⟩
    · rw [hlist] at hc
      obtain ⟨hc, hne⟩ := mem_removeobj.mp hc
      refine ⟨hmem.mpr ⟨(h.listed o c hc).1, hne⟩, ?_⟩
      show ((s.unlist a).heap c).ownernum = some o
      rw [unlist_heap]
      exact (h.listed o c hc).2
    · rw [hlist]
      exact (h.nodup o).filter _
    · exact (info_unlist s a o).trans (h.known o ho)
    · show ∀ o ∈ (s.unlist a).clients, C o
      rw [unlist_clients]
      exact h.clients

theorem deleteai (h : s.Matched C) : s.deleteai.Matched C := by
  unfold Aiman.deleteai
  split
  · exact h
  · exact h.deletebot _

theorem clearai (h : s.Matched C) : s.clearai.Matched C :=
  List.foldlRecOn _ _ h fun _ h cn _ => h.deletebot cn

theorem reinitai (h : s.Matched C) (cn : Nat) : (s.reinitai cn).Matched C := by
  unfold Aiman.reinitai
  cases ha : (s.bots[cn]?).join with
  | none => exact h
  | some a =>
    dsimp only
    split
    · exact h.deletebot cn
    · split
      · exact h.setBot rfl
      · exact h

end Matched

/-- The client found is one of the clients, and not the one excluded. -/
theorem best_mem {s : Aiman} {better : Nat → Nat → Bool} {exclude : Option Cn} {o : Cn}
    (h : s.best better exclude = some o) : o ∈ s.clients ∧ some o ≠ exclude := by
  have hall : ∀ o, s.best better exclude = some o → o ∈ s.clients ∧ some o ≠ exclude := by
    unfold best
    refine List.foldlRecOn (motive := fun least : Option Cn => ∀ o, least = some o →
      o ∈ s.clients ∧ some o ≠ exclude) s.clients _ nofun fun least hleast cn hcn o ho => ?_
    split at ho
    · exact hleast o ho
    · rename_i hvalid
      have hnew : cn ∈ s.clients ∧ some cn ≠ exclude := ⟨hcn, fun h => hvalid (.inr h)⟩
      split at ho
      · obtain rfl := Option.some_inj.mp ho
        exact hnew
      · split at ho
        · obtain rfl := Option.some_inj.mp ho
          exact hnew
        · exact hleast o ho
  exact hall o h

namespace Matched

variable {C : Cn → Prop} {s : Aiman}

theorem reassignai (h : s.Matched C) : s.reassignai.Matched C := by
  unfold Aiman.reassignai
  split
  · rename_i hi lo hhi hlo
    split
    · split
      · exact h
      · rename_i a ha
        refine h.shiftai (h.listed hi a (List.mem_of_getLast? ha)).1 fun o ho => ?_
        obtain rfl := Option.some_inj.mp ho
        exact h.clients _ (best_mem hlo).1
    · exact h
  · exact h

theorem length_removeobj {l : List Address} {a : Address} (hl : l.Nodup) (ha : a ∈ l) :
    (removeobj l a).length + 1 = l.length := by
  have herase : removeobj l a = l.erase a := by
    rw [hl.erase_eq_filter]
    unfold removeobj
    simp only [ne_eq, decide_not]
    rfl
  have hpos := List.length_pos_of_mem ha
  rw [herase, List.length_erase_of_mem ha]
  omega

/-- The list of a client whose bots go away gets shorter by one. -/
theorem shiftaway (h : s.Matched C) (cn : Cn) (i : Nat) :
    (s.shiftaway cn i).Matched C ∧ (s.shiftaway cn i).clients = s.clients ∧
      ((s.botsOf cn).length = i + 1 → ((s.shiftaway cn i).botsOf cn).length = i) := by
  unfold Aiman.shiftaway
  cases ha : (s.botsOf cn)[i]? with
  | none =>
    refine ⟨h, rfl, fun hlength => absurd (List.getElem?_eq_none_iff.mp ha) ?_⟩
    omega
  | some a =>
    have hmem := List.mem_of_getElem? ha
    have howner : ∀ o, s.findaiclient (some cn) = some o → C o :=
      fun o ho => h.clients o (best_mem ho).1
    refine ⟨h.shiftai (h.listed cn a hmem).1 howner, shiftai_clients s a _, fun hlength => ?_⟩
    have hother : s.findaiclient (some cn) ≠ some cn := fun hcn => (best_mem hcn).2 rfl
    dsimp only
    rw [h.botsOf_shiftai a howner, if_neg hother, List.append_nil]
    have hremoved := length_removeobj (h.nodup cn) hmem
    omega

/-- The bots of a client go away, all of them. -/
theorem removeai (h : s.Matched C) (cn : Cn) :
    (s.removeai cn).Matched C ∧ (s.removeai cn).clients = s.clients ∧
      (s.removeai cn).botsOf cn = [] := by
  have hloop : ∀ n, ∀ s : Aiman, s.Matched C → (s.botsOf cn).length = n →
      ((List.range n).reverse.foldl (Aiman.shiftaway cn) s).Matched C ∧
        ((List.range n).reverse.foldl (Aiman.shiftaway cn) s).clients = s.clients ∧
          ((List.range n).reverse.foldl (Aiman.shiftaway cn) s).botsOf cn = [] := by
    intro n
    induction n with
    | zero => exact fun s h hlength => ⟨h, rfl, List.length_eq_zero_iff.mp hlength⟩
    | succ n ih =>
      intro s h hlength
      obtain ⟨hnext, hclients, hshorter⟩ := h.shiftaway cn n
      rw [List.range_succ, List.reverse_append, List.reverse_singleton, List.singleton_append,
        List.foldl_cons, ← hclients]
      exact ih _ hnext (hshorter hlength)
  exact hloop _ s h rfl

/-- A new bot that has no owner yet. -/
theorem newbot (h : s.Matched C) {bots : List (Option Address)} {b : Bot}
    (hbots : ∀ i a, bots[i]? = some (some a) → s.bots[i]? = some (some a) ∨ (a = s.fresh ∧ i = s.slot))
    (hold : ∀ a, some a ∈ s.bots → some a ∈ bots) (hb : b.ownernum = none) :
    Aiman.Matched C { s with
      bots := bots
      heap := Function.update s.heap s.fresh b
      fresh := s.fresh + 1 } := by
  have hlt {i : Nat} {a : Address} (hi : s.bots[i]? = some (some a)) : a ≠ s.fresh :=
    (h.fresh a (List.mem_of_getElem? hi)).ne
  have hheap {a : Address} (ha : a ≠ s.fresh) : Function.update s.heap s.fresh b a = s.heap a :=
    Function.update_of_ne ha ..
  refine ⟨fun i j a hi hj => ?_, fun a ha => ?_, fun a o ha ho => ?_, fun o a ha => ?_, h.nodup,
    h.known, h.clients⟩
  · rcases hbots i a hi with hi | ⟨hia, hi⟩
    · rcases hbots j a hj with hj | ⟨hja, -⟩
      · exact h.distinct i j a hi hj
      · exact absurd hja (hlt hi)
    · rcases hbots j a hj with hj | ⟨-, hj⟩
      · exact absurd hia (hlt hj)
      · rw [hi, hj]
  · obtain ⟨i, hi⟩ := List.getElem?_of_mem ha
    rcases hbots i a hi with hi | ⟨rfl, -⟩
    · exact Nat.lt_succ_of_lt (h.fresh a (List.mem_of_getElem? hi))
    · exact Nat.lt_succ_self _
  · obtain ⟨i, hi⟩ := List.getElem?_of_mem ha
    have ho' : (Function.update s.heap s.fresh b a).ownernum = some o := ho
    rcases hbots i a hi with hi | ⟨rfl, -⟩
    · rw [hheap (hlt hi)] at ho'
      exact h.owner a o (List.mem_of_getElem? hi) ho'
    · rw [Function.update_self, hb] at ho'
      cases ho'
  · obtain ⟨hmem, ho⟩ := h.listed o a ha
    refine ⟨hold a hmem, ?_⟩
    show (Function.update s.heap s.fresh b a).ownernum = some o
    rw [hheap (h.fresh a hmem).ne]
    exact ho

/-- The clients change in ways that have nothing to do with bots. -/
theorem of_info (h : s.Matched C) {info : Cn → Option Human}
    (hknown : ∀ o, (s.info o).isSome = true → (info o).isSome = true)
    (hbots : ∀ o, Aiman.botsOf { s with info := info } o = s.botsOf o) :
    Aiman.Matched C { s with info := info } where
  distinct := h.distinct
  fresh := h.fresh
  owner a o ha ho := by
    obtain ⟨hC, hmem⟩ := h.owner a o ha ho
    exact ⟨hC, (hbots o).symm ▸ hmem⟩
  listed o a ha := h.listed o a ((hbots o) ▸ ha)
  nodup o := (hbots o).symm ▸ h.nodup o
  known o ho := hknown o (h.known o ho)
  clients := h.clients

/-- A client without bots leaves. -/
theorem leave (h : s.Matched C) {cn : Cn} (hnone : s.botsOf cn = [])
    (hgone : ∀ o, o ∈ s.clients ↔ C o ∧ o ≠ cn) :
    Aiman.Matched (· ∈ s.clients) { s with info := Function.update s.info cn none } := by
  have hsame {o : Cn} (ho : o ≠ cn) :
      Aiman.botsOf { s with info := Function.update s.info cn none } o = s.botsOf o := by
    unfold botsOf
    dsimp only
    rw [Function.update_of_ne ho]
  have hself : Aiman.botsOf { s with info := Function.update s.info cn none } cn = [] := by
    unfold botsOf
    dsimp only
    rw [Function.update_self]
    rfl
  refine ⟨h.distinct, h.fresh, fun a o ha ho => ?_, fun o a ha => ?_, fun o => ?_, fun o ho => ?_,
    fun _ ho => ho⟩
  · obtain ⟨hC, hmem⟩ := h.owner a o ha ho
    have hne : o ≠ cn := by
      rintro rfl
      rw [hnone] at hmem
      cases hmem
    exact ⟨(hgone o).mpr ⟨hC, hne⟩, (hsame hne).symm ▸ hmem⟩
  · by_cases hne : o = cn
    · subst hne
      rw [hself] at ha
      cases ha
    · rw [hsame hne] at ha
      exact h.listed o a ha
  · by_cases hne : o = cn
    · subst hne
      rw [hself]
      exact List.nodup_nil
    · rw [hsame hne]
      exact h.nodup o
  · obtain ⟨hC, hne⟩ := (hgone o).mp ho
    show (Function.update s.info cn none o).isSome = true
    rw [Function.update_of_ne hne]
    exact h.known o hC

theorem disconnect (h : s.Matched (· ∈ s.clients)) (cn : Cn) :
    (s.disconnect cn).Matched (· ∈ (s.disconnect cn).clients) := by
  unfold Aiman.disconnect
  by_cases hcn : cn ∈ s.clients
  · rw [if_pos hcn]
    have hless : Aiman.Matched (· ∈ s.clients) { s with clients := removeobj s.clients cn } :=
      ⟨h.distinct, h.fresh, h.owner, h.listed, h.nodup, h.known,
        fun o ho => (mem_removeobj.mp ho).1⟩
    obtain ⟨hremoved, hclients, hnone⟩ := hless.removeai cn
    refine hremoved.leave hnone fun o => ?_
    rw [hclients]
    exact mem_removeobj
  · rw [if_neg hcn]
    refine h.leave ?_ fun o => ⟨fun ho => ⟨ho, ne_of_mem_of_not_mem ho hcn⟩, And.left⟩
    refine List.eq_nil_iff_forall_not_mem.mpr fun a ha => hcn ?_
    obtain ⟨hmem, ho⟩ := h.listed cn a ha
    exact (h.owner a cn hmem ho).1

end Matched

/-! ## New bots -/

/-- The slot that is reused is vacant. -/
theorem vacant_slot {s : Aiman} {b : Option Address} (h : s.bots[s.slot]? = some b) :
    s.vacant b = true := by
  obtain ⟨hlt, rfl⟩ := List.getElem?_eq_some_iff.mp h
  exact List.findIdx_getElem (w := hlt)

/-- A slot is reused for a bot that has lost its owner, and there is another owner for it. -/
def Reuses (s : Aiman) (limit : Int) : Prop :=
  s.room limit ∧ (∃ a, (s.bots[s.slot]?).join = some a) ∧ s.findaiclient none ≠ none

/-- The slot for a new bot is free. -/
theorem join_slot {s : Aiman} (h : (s.bots[s.slot]?).join = none) :
    s.slot = s.bots.length ∨ s.bots[s.slot]? = some none := by
  rcases Nat.lt_or_ge s.slot s.bots.length with hlt | hge
  · refine .inr ?_
    rw [List.getElem?_eq_getElem hlt] at h ⊢
    exact congrArg some h
  · exact .inl (Nat.le_antisymm List.findIdx_le_length hge)

/-- A new bot comes into a free slot, and into the list of its owner. -/
theorem Matched.addnew {C : Cn → Prop} {s : Aiman} (h : s.Matched C)
    (hslot : s.slot = s.bots.length ∨ s.bots[s.slot]? = some none) {owner : Option Cn}
    (howner : ∀ o, owner = some o → C o) :
    Aiman.Matched C (Aiman.enlist { s with
      bots := if s.slot < s.bots.length then s.bots.set s.slot (some s.fresh)
        else s.bots ++ [some s.fresh]
      heap := Function.update s.heap s.fresh ⟨owner, 2⟩
      fresh := s.fresh + 1 } owner s.fresh) := by
  let bots := if s.slot < s.bots.length then s.bots.set s.slot (some s.fresh)
    else s.bots ++ [some s.fresh]
  have hget (i : Nat) : bots[i]? = if i = s.slot then some (some s.fresh) else s.bots[i]? := by
    show (if _ then _ else _ : List (Option Address))[i]? = _
    split
    · rename_i hlt
      rw [List.getElem?_set]
      by_cases hi : s.slot = i
      · subst hi
        rw [if_pos rfl, if_pos rfl, if_pos hlt]
      · rw [if_neg hi, if_neg (Ne.symm hi)]
    · rename_i hge
      have hlength : s.slot = s.bots.length := by
        refine hslot.resolve_right fun hnone => hge ?_
        exact (List.getElem?_eq_some_iff.mp hnone).1
      rw [hlength, List.getElem?_append]
      rcases Nat.lt_trichotomy i s.bots.length with hlt | rfl | hgt
      · rw [if_pos hlt, if_neg hlt.ne]
      · simp
      · rw [if_neg hgt.not_gt, if_neg hgt.ne', List.getElem?_eq_none hgt.le]
        exact List.getElem?_eq_none (by simp; omega)
  have hmatched : Aiman.Matched C { s with
      bots := bots
      heap := Function.update s.heap s.fresh ⟨none, 2⟩
      fresh := s.fresh + 1 } := by
    refine h.newbot (fun i a hi => ?_) (fun a ha => ?_) rfl
    · rw [hget] at hi
      split at hi
      · exact .inr ⟨(Option.some_inj.mp (Option.some_inj.mp hi)).symm, ‹_›⟩
      · exact .inl hi
    · obtain ⟨i, hi⟩ := List.getElem?_of_mem ha
      refine List.mem_of_getElem? (i := i) ?_
      rw [hget, if_neg, hi]
      rintro rfl
      rcases hslot with hlength | hnone
      · have hlt := (List.getElem?_eq_some_iff.mp hi).1
        omega
      · exact absurd (hi.symm.trans hnone) nofun
  have hfree (x : Cn) : s.fresh ∉ s.botsOf x := fun ha =>
    absurd (h.fresh _ (h.listed x _ ha).1) (Nat.lt_irrefl _)
  have hmem : some s.fresh ∈ bots := by
    refine List.mem_of_getElem? (i := s.slot) ?_
    rw [hget, if_pos rfl]
  cases owner with
  | none => exact hmatched
  | some o =>
    refine hmatched.shift (a := s.fresh) (b := ⟨some o, 2⟩) hmem rfl rfl rfl
      (Function.update_idem ..).symm (fun x => info_modifyBots _ o x (· ++ [s.fresh])) (fun x => ?_)
      howner
    show (modifyBots _ o (· ++ [s.fresh])).botsOf x = removeobj (s.botsOf x) s.fresh ++ _
    rw [botsOf_modifyBots, removeobj_of_not_mem (hfree x)]
    by_cases hx : x = o
    · subst hx
      rw [if_pos ⟨rfl, h.known x (howner x rfl)⟩, if_pos rfl]
      rfl
    · rw [if_neg fun h => hx h.1, if_neg fun h => hx (Option.some_inj.mp h).symm, List.append_nil]
      rfl

theorem Matched.addai {C : Cn → Prop} {s : Aiman} (h : s.Matched C) {limit : Int}
    (hok : ¬ s.Reuses limit) : (s.addai limit).Matched C := by
  unfold Aiman.addai
  by_cases hroom : s.room limit
  · rw [if_neg (not_not.mpr hroom)]
    dsimp only
    cases ha : (s.bots[s.slot]?).join with
    | some a =>
      have hvacant := vacant_slot (Matched.mem_of_join ha)
      have hnone : s.findaiclient none = none := by
        by_contra hsome
        exact hok ⟨hroom, ⟨a, ha⟩, hsome⟩
      rw [hnone]
      exact h.setBot (of_decide_eq_true hvacant).symm
    | none =>
      exact h.addnew (join_slot ha) (fun o ho => h.clients o (best_mem ho).1)
  · rw [if_pos hroom]
    exact h

/-! ## Clients that stay -/

theorem addai_clients (s : Aiman) (limit : Int) : (s.addai limit).clients = s.clients := by
  unfold addai
  split
  · rfl
  · dsimp only
    split
    · rfl
    · unfold enlist
      split <;> rfl

theorem deletebot_clients (s : Aiman) (cn : Nat) : (s.deletebot cn).clients = s.clients := by
  unfold deletebot
  split
  · rfl
  · exact unlist_clients s _

theorem deleteai_clients (s : Aiman) : s.deleteai.clients = s.clients := by
  unfold deleteai
  split
  · rfl
  · exact s.deletebot_clients _

theorem clearai_clients (s : Aiman) : s.clearai.clients = s.clients :=
  List.foldlRecOn (motive := fun t : Aiman => t.clients = s.clients) _ _ rfl fun t ht cn _ =>
    (t.deletebot_clients cn).trans ht

theorem reinitai_clients (s : Aiman) (cn : Nat) : (s.reinitai cn).clients = s.clients := by
  unfold reinitai
  split
  · rfl
  · split
    · exact s.deletebot_clients cn
    · split <;> rfl

theorem reassignai_clients (s : Aiman) : s.reassignai.clients = s.clients := by
  unfold reassignai
  split
  · split
    · split
      · rfl
      · exact Matched.shiftai_clients s _ _
    · rfl
  · rfl

/-! ## Runs -/

/-- No slot is reused. -/
def NoReuse (s : Aiman) (a : Action) : Prop := ∀ limit, a = .addai limit → ¬ s.Reuses limit

/-- A bot goes to a client that is in the game. -/
theorem Matched.step_shiftai {s : Aiman} (h : s.Matched (· ∈ s.clients)) (cn : Nat)
    (owner : Option Cn) :
    (s.step (.shiftai cn owner)).Matched (· ∈ (s.step (.shiftai cn owner)).clients) := by
  unfold step
  dsimp only
  cases ha : (s.bots[cn]?).join with
  | none => exact h
  | some a =>
    dsimp only
    split
    · rename_i hall
      rw [Matched.shiftai_clients]
      refine h.shiftai (List.mem_of_getElem? (Matched.mem_of_join ha)) fun o ho => ?_
      rw [ho] at hall
      exact of_decide_eq_true hall
    · exact h

/-- A client comes to the server without bots. -/
theorem Matched.arrive {s : Aiman} (h : s.Matched (· ∈ s.clients)) (cn : Cn) (ci : Human) :
    (s.step (.arrive cn ci)).Matched (· ∈ (s.step (.arrive cn ci)).clients) := by
  unfold step
  dsimp only
  split
  · rename_i hnone
    refine h.of_info (fun o ho => ?_) fun o => ?_
    · by_cases hcn : o = cn
      · rw [hcn, Function.update_self]
        rfl
      · rwa [Function.update_of_ne hcn]
    · unfold botsOf
      dsimp only
      by_cases hcn : o = cn
      · rw [hcn, Function.update_self, hnone]
        rfl
      · rw [Function.update_of_ne hcn]
  · exact h

/-- A client of the server gets into the game. -/
theorem Matched.connect {s : Aiman} (h : s.Matched (· ∈ s.clients)) (cn : Cn) :
    (s.step (.connect cn)).Matched (· ∈ (s.step (.connect cn)).clients) := by
  unfold step
  dsimp only
  split
  · exact h
  · rename_i hcn
    rw [not_or] at hcn
    have hmore {o : Cn} (ho : o ∈ s.clients) : o ∈ s.clients ++ [cn] :=
      List.mem_append_left _ ho
    refine ⟨h.distinct, h.fresh, fun a o ha ho => ?_, h.listed, h.nodup, fun o ho => ?_,
      fun _ ho => ho⟩
    · obtain ⟨hC, hmem⟩ := h.owner a o ha ho
      exact ⟨hmore hC, hmem⟩
    · rcases List.mem_append.mp ho with ho | ho
      · exact h.known o ho
      · rw [List.mem_singleton.mp ho]
        exact Option.isSome_iff_ne_none.mpr hcn.2

/-- A client keeps its bots when it changes in other ways. -/
theorem Matched.change {s : Aiman} (h : s.Matched (· ∈ s.clients)) (cn : Cn) (ci : Human) :
    (s.step (.change cn ci)).Matched (· ∈ (s.step (.change cn ci)).clients) := by
  refine h.of_info (fun o ho => ?_) fun o => ?_
  · by_cases hcn : o = cn
    · subst hcn
      rwa [Function.update_self, Option.isSome_map]
    · rwa [Function.update_of_ne hcn]
  · unfold botsOf
    dsimp only
    by_cases hcn : o = cn
    · subst hcn
      rw [Function.update_self]
      cases s.info o with
      | none => rfl
      | some old => rfl
    · rw [Function.update_of_ne hcn]

theorem matched_step {s : Aiman} (h : s.Matched (· ∈ s.clients)) {a : Action} (hok : s.NoReuse a) :
    (s.step a).Matched (· ∈ (s.step a).clients) := by
  cases a with
  | addai limit =>
    show (s.addai limit).Matched (· ∈ (s.addai limit).clients)
    rw [addai_clients]
    exact h.addai (hok limit rfl)
  | deleteai =>
    show s.deleteai.Matched (· ∈ s.deleteai.clients)
    rw [deleteai_clients]
    exact h.deleteai
  | deletebot cn =>
    show (s.deletebot cn).Matched (· ∈ (s.deletebot cn).clients)
    rw [deletebot_clients]
    exact h.deletebot cn
  | reinitai cn =>
    show (s.reinitai cn).Matched (· ∈ (s.reinitai cn).clients)
    rw [reinitai_clients]
    exact h.reinitai cn
  | shiftai cn owner => exact h.step_shiftai cn owner
  | removeai cn =>
    obtain ⟨hremoved, hclients, -⟩ := h.removeai cn
    show (s.removeai cn).Matched (· ∈ (s.removeai cn).clients)
    rw [hclients]
    exact hremoved
  | reassignai =>
    show s.reassignai.Matched (· ∈ s.reassignai.clients)
    rw [reassignai_clients]
    exact h.reassignai
  | clearai =>
    show s.clearai.Matched (· ∈ s.clearai.clients)
    rw [clearai_clients]
    exact h.clearai
  | arrive cn ci => exact h.arrive cn ci
  | connect cn => exact h.connect cn
  | disconnect cn => exact h.disconnect cn
  | change cn ci => exact h.change cn ci

/-- The server without clients and bots. -/
structure Empty (s : Aiman) : Prop where
  bots : s.bots = []
  clients : s.clients = []
  info : ∀ cn, s.info cn = none

/-- In every run from an empty server in which no slot of a bot without owner is reused, bots and
lists match. -/
theorem ownership_bijective {s₀ : Aiman} (h₀ : s₀.Empty) {as : List Action}
    (hok : Machine.Along NoReuse step s₀ as) : (Machine.run step s₀ as).Bijective := by
  have hlist (o : Cn) : s₀.botsOf o = [] := by
    unfold botsOf
    rw [h₀.info]
    rfl
  have hno {a : Address} (ha : some a ∈ s₀.bots) : False := by
    rw [h₀.bots] at ha
    cases ha
  have hmatched : s₀.Matched (· ∈ s₀.clients) := by
    refine ⟨fun i j a hi => (hno (List.mem_of_getElem? hi)).elim, fun a ha => (hno ha).elim,
      fun a o ha => (hno ha).elim, fun o a ha => ?_, fun o => ?_, fun o ho => ?_, fun _ ho => ho⟩
    · rw [hlist] at ha
      cases ha
    · rw [hlist]
      exact List.nodup_nil
    · rw [h₀.clients] at ho
      cases ho
  exact (hok.inv (P := fun s : Aiman => s.Matched (· ∈ s.clients)) (fun s a hok h => matched_step h hok)
    hmatched).bijective

/-- A server without clients and bots. -/
def nobody : Aiman := ⟨[], fun _ => ⟨none, 0⟩, 0, [], fun _ => none⟩

/-- A client that plays. -/
def player : Human := ⟨false, false, 0, false, false, []⟩

/-- A spectator. -/
def watcher : Human := { player with spectator := true }

theorem ownership_bijective_nobody : (Machine.run step nobody [.arrive 0 player, .connect 0,
    .addai (-1), .removeai 0, .reinitai 0, .addai (-1), .disconnect 0]).Bijective := by
  refine ownership_bijective ⟨rfl, rfl, fun _ => rfl⟩
    ⟨nofun, nofun, ?_, nofun, nofun, ?_, nofun, trivial⟩ <;>
  · rintro limit ⟨⟩ ⟨-, ⟨a, ha⟩, -⟩
    revert ha
    exact nofun

/-- The only client goes to the spectators, so its bot loses its owner; it comes back and adds a
bot before the old one is removed: the old one gets its number, but the client's list is empty. -/
theorem reused_bot : nobody.Empty ∧ ¬ (Machine.run step nobody [.arrive 0 player, .connect 0,
    .addai (-1), .change 0 watcher, .removeai 0, .change 0 player, .addai (-1)]).Bijective := by
  refine ⟨⟨rfl, rfl, fun _ => rfl⟩, fun h => ?_⟩
  have howner := (h.owner 0 (by decide) 0).mp (by decide)
  exact absurd howner.2.1 (by decide)

end Aiman

end Zuckerserv
