import Zuckerserv.Net.PrefixTree

/-!
# What a lookup finds

After any insertions, a lookup finds what a flat list of the insertions would give: the values of
the prefixes that cover the address, the shorter prefixes first, each with the value that was
inserted last.

* `build`, `stored` — the tree of some insertions, and the flat list of them.
* `get_build` — the map of the tree.
* `lookup_build` — what a lookup finds.
-/

namespace Zuckerserv

namespace Net

open Radix

variable {α : Type}

namespace Tree

/-- The tree after some insertions. -/
def build (ins : List (Prefix × α)) : Tree α := ins.foldl (fun t e => t.insert e.1 e.2) root

/-- The value that was inserted last for the prefix of `n` bits of an address. -/
def stored (ins : List (Prefix × α)) (a : BitVec 32) (n : Nat) : Option α :=
  (ins.reverse.find? fun e =>
    decide (e.1.mask = n ∧ e.1.value &&& maskValue n = a &&& maskValue n)).map (·.2)

variable {t : Tree α} {p : Prefix} {v : α} {ins : List (Prefix × α)} {a : BitVec 32} {n : Nat}

theorem isRoot_root : (root : Tree α).IsRoot :=
  ⟨⟨Nat.zero_le _, trivial, trivial, trivial, trivial⟩, null, null, rfl⟩

/-- The root of a table stays at no prefix. -/
theorem IsRoot.insert (ht : t.IsRoot) (hpos : 0 < p.mask) (hp : p.mask ≤ 32) (v : α) :
    (t.insert p v).IsRoot := by
  refine ⟨wellFormed_insert ht.wellFormed hp v, ?_⟩
  obtain ⟨-, c0, c1, rfl⟩ := ht
  have hnone : commonMaskBits ⟨0, 0⟩ p = 0 := by
    have hle := commonMaskBits_le ⟨0, 0⟩ p
    dsimp only at hle
    omega
  have hcommon : commonPrefix ⟨0, 0⟩ p = ⟨0, 0⟩ := by
    unfold commonPrefix
    rw [hnone]
    exact congrArg (Prefix.mk · 0) BitVec.zero_and
  rw [Tree.insert]
  dsimp only
  rw [hcommon, if_neg (Nat.lt_irrefl _)]
  have hrest : (p.shift 0).mask = p.mask := Nat.sub_zero _
  rw [if_neg (hrest ▸ Nat.ne_of_gt hpos)]
  split
  · exact ⟨_, _, rfl⟩
  · exact ⟨_, _, rfl⟩

theorem build_concat (ins : List (Prefix × α)) (e : Prefix × α) :
    build (ins ++ [e]) = (build ins).insert e.1 e.2 := List.foldl_concat ..

/-- Every prefix that is inserted is one of an address, and not empty. -/
def Proper (ins : List (Prefix × α)) : Prop := ∀ e ∈ ins, 0 < e.1.mask ∧ e.1.mask ≤ 32

theorem Proper.isRoot (h : Proper ins) : (build ins).IsRoot := by
  induction ins using List.reverseRecOn with
  | nil => exact isRoot_root
  | append_singleton ins e ih =>
    rw [build_concat]
    obtain ⟨hpos, hle⟩ := h e (by simp)
    exact (ih fun x hx => h x (by simp [hx])).insert hpos hle e.2

/-- The tree has the values that were inserted last. -/
theorem get_build (h : Proper ins) (bs : List Bool) :
    (build ins).get bs = (ins.reverse.find? fun e => decide (e.1.bits = bs)).map (·.2) := by
  induction ins using List.reverseRecOn with
  | nil => cases bs with
    | nil => rfl
    | cons b bs => cases b <;> rfl
  | append_singleton ins e ih =>
    have hins : Proper ins := fun x hx => h x (by simp [hx])
    rw [build_concat, get_insert hins.isRoot.wellFormed, List.reverse_append]
    unfold put
    rw [List.reverse_singleton, List.singleton_append, List.find?_cons, ih hins]
    by_cases heq : bs = e.1.bits
    · rw [if_pos heq, decide_eq_true heq.symm]
      rfl
    · rw [if_neg heq, decide_eq_false (Ne.symm heq)]

theorem take_bits (a : BitVec 32) (hn : n ≤ 32) :
    (Prefix.mk a 32).bits.take n = (Prefix.mk a n).bits := by
  rw [Prefix.bits, Prefix.bits, ← List.map_take, List.take_range, Nat.min_eq_left hn]

/-- What the tree has for the first bits of an address is what was inserted last. -/
theorem get_build_take (h : Proper ins) (a : BitVec 32) (hn : n ≤ 32) :
    (build ins).get ((Prefix.mk a 32).bits.take n) = stored ins a n := by
  rw [get_build h, take_bits a hn]
  unfold stored
  congr 2
  funext e
  refine decide_eq_decide.mpr (eq_comm.trans ((bits_eq_iff (p := ⟨a, n⟩) hn).trans ?_))
  exact and_congr eq_comm eq_comm

theorem stored_range (h : Proper ins) (hs : stored ins a n = some v) : 0 < n ∧ n ≤ 32 := by
  obtain ⟨e, he, -⟩ := Option.map_eq_some_iff.mp hs
  have hmem := List.mem_reverse.mp (List.mem_of_find?_eq_some he)
  have hmatch := List.find?_some he
  rw [decide_eq_true_eq] at hmatch
  exact hmatch.1 ▸ h e hmem

/-- The fronts of an address. -/
theorem covers_address (m : WordMap α) (a : BitVec 32) (hnil : m [] = none) :
    covers m (Prefix.mk a 32).bits =
      (List.range' 1 32).filterMap fun n => m ((Prefix.mk a 32).bits.take n) := by
  have hinits : (Prefix.mk a 32).bits.inits =
      (List.range 33).map fun n => (Prefix.mk a 32).bits.take n := by
    refine List.ext_getElem (by rw [List.length_inits, length_bits]; rfl) fun n h h' => ?_
    rw [List.getElem_inits, List.getElem_map, List.getElem_range]
  have hfirst : (m ∘ fun n => (Prefix.mk a 32).bits.take n) 0 = none := hnil
  unfold covers
  rw [hinits, List.filterMap_map, List.range_eq_range', List.range'_succ,
    List.filterMap_cons_none hfirst]
  rfl

/-- The last value is the one of the last place that has one. -/
theorem getLast?_filterMap {f : Nat → Option α} (hn : 0 < n) (hn' : n ≤ 32) (hv : f n = some v)
    (hlast : ∀ m, n < m → f m = none) : ((List.range' 1 32).filterMap f).getLast? = some v := by
  obtain ⟨front, rest, hsplit⟩ :=
    List.append_of_mem (List.mem_range'_1.mpr ⟨hn, by omega⟩ : n ∈ List.range' 1 32)
  have hsorted := hsplit ▸ (List.pairwise_lt_range' (s := 1) (n := 32))
  have hrest : rest.filterMap f = [] := by
    refine List.filterMap_eq_nil_iff.mpr fun m hm => hlast m ?_
    exact (List.pairwise_cons.mp (List.pairwise_append.mp hsorted).2.1).1 m hm
  rw [hsplit, List.filterMap_append, List.filterMap_cons_some hv, hrest, List.getLast?_concat]

/-- After any insertions, a lookup finds the values that were inserted last for the prefixes that
cover the address, the shorter ones first; the last one is that of the longest prefix. -/
theorem lookup_build (ins : List (Prefix × α)) (h : Proper ins) (a : BitVec 32) :
    (build ins).lookup ⟨a, 32⟩ = (List.range' 1 32).filterMap (stored ins a) ∧
      (∀ n v, stored ins a n = some v → (∀ m, n < m → stored ins a m = none) →
        ((build ins).lookup ⟨a, 32⟩).getLast? = some v) ∧
      ((∀ n, stored ins a n = none) → (build ins).lookup ⟨a, 32⟩ = []) := by
  have hnil : (build ins).get [] = none := by
    obtain ⟨-, c0, c1, hroot⟩ := h.isRoot
    rw [hroot, get_root]
    rfl
  have hlookup : (build ins).lookup ⟨a, 32⟩ = (List.range' 1 32).filterMap (stored ins a) := by
    rw [lookup_eq_covers h.isRoot (Nat.zero_lt_succ 31), covers_address _ a hnil]
    refine List.filterMap_congr fun n hn => get_build_take h a ?_
    have hmem := List.mem_range'_1.mp hn
    omega
  refine ⟨hlookup, fun n v hv hlast => ?_, fun hnone => ?_⟩
  · obtain ⟨hpos, hle⟩ := stored_range h hv
    rw [hlookup, getLast?_filterMap hpos hle hv hlast]
  · rw [hlookup]
    exact List.filterMap_eq_nil_iff.mpr fun n _ => hnone n

/-- A network of 10.x.x.x and one of 10.1.x.x, as they are found for 10.1.2.3. -/
theorem lookup_build_nested :
    ((build [(⟨0x0A000000, 8⟩, 1), (⟨0x0A010000, 16⟩, 2)]).lookup ⟨0x0A010203, 32⟩).getLast? =
      some 2 := by
  refine (lookup_build _ ?_ _).2.1 16 2 (by decide) fun m hm => ?_
  · simp [Proper]
  · have h8 : ¬ 8 = m := by omega
    have h16 : ¬ 16 = m := by omega
    simp [stored, h8, h16]

end Tree

end Net

end Zuckerserv
