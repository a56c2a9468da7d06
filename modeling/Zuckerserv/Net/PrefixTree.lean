import Zuckerserv.Net.Address

/-!
# The tree of prefixes

A radix tree with values at some prefixes: every node keeps the bits that lie between it and its
parent. A search follows an address down, and stops at every value on its way.

* `Tree`, `insert`, `nextMatch`, `lookup` — the tree and its operations.
* `Tree.get` — the map that the tree stands for.
* `get_insert` — insertion changes the map at one prefix.
* `lookup_eq_covers` — the search finds the values that the map has for the fronts of an address.
* `lookup_build` — what is found after any insertions.
-/

namespace Zuckerserv

namespace Net

open Radix

variable {α : Type}

/-! ## The tree -/

/-- An `address_prefix_tree`; the default value is `none`. -/
inductive Tree (α : Type)
  | null
  | node (mPrefix : Prefix) (m_value : Option α) (m_child0 m_child1 : Tree α)

namespace Tree

/-- A node with a child on the side `b`, and another on the other side. -/
def fork (mPrefix : Prefix) (m_value : Option α) (b : Bool) (child other : Tree α) : Tree α :=
  if b then .node mPrefix m_value other child else .node mPrefix m_value child other

/-- `insert(prefix, value)`; for no node it is the node that the parent makes. Where a successor is
split off, the child for the prefix is on the other side: the two differ in their first bit. -/
def insert : Tree α → Prefix → α → Tree α
  | .null, pfx, value => .node pfx (some value) .null .null
  | .node mPrefix m_value m_child0 m_child1, pfx, value =>
    let common := commonPrefix mPrefix pfx
    let child_prefix := pfx.shift common.mask
    if common.mask < mPrefix.mask then
      let successor := .node (mPrefix.shift common.mask) m_value m_child0 m_child1
      let side := (mPrefix.shift common.mask).firstBit
      if child_prefix.mask = 0 then fork common (some value) side successor .null
      else fork common none side successor (.node child_prefix (some value) .null .null)
    else if child_prefix.mask = 0 then .node common (some value) m_child0 m_child1
    else if child_prefix.firstBit then
      .node common m_value m_child0 (m_child1.insert child_prefix value)
    else .node common m_value (m_child0.insert child_prefix value) m_child1

/-- The loop of `next_match`, from a child on: the node with a value that it stops at, and what
remains of the prefix. -/
def visit : Tree α → Prefix → Option (Tree α × Prefix)
  | .null, _ => none
  | .node mPrefix m_value m_child0 m_child1, pfx =>
    if (commonPrefix mPrefix pfx).mask = mPrefix.mask then
      let pfx := pfx.shift mPrefix.mask
      if m_value.isSome then some (.node mPrefix m_value m_child0 m_child1, pfx)
      else if pfx.firstBit then m_child1.visit pfx else m_child0.visit pfx
    else none

/-- `next_match(prefix)`. -/
def nextMatch : Tree α → Prefix → Option (Tree α × Prefix)
  | .null, _ => none
  | .node _ _ m_child0 m_child1, pfx =>
    if pfx.firstBit then m_child1.visit pfx else m_child0.visit pfx

/-- `value()`. -/
def value : Tree α → Option α
  | .null => none
  | .node _ m_value _ _ => m_value

theorem sizeOf_visit {t t' : Tree α} {p p' : Prefix} (h : t.visit p = some (t', p')) :
    sizeOf t' ≤ sizeOf t := by
  induction t generalizing p with
  | null => cases h
  | node q w c0 c1 ih0 ih1 =>
    rw [visit] at h
    dsimp only at h
    split at h
    · split at h
      · cases h
        exact Nat.le_refl _
      · split at h
        · have hle := ih1 h
          rw [node.sizeOf_spec]
          omega
        · have hle := ih0 h
          rw [node.sizeOf_spec]
          omega
    · cases h

theorem sizeOf_nextMatch {t t' : Tree α} {p p' : Prefix} (h : t.nextMatch p = some (t', p')) :
    sizeOf t' < sizeOf t := by
  cases t with
  | null => cases h
  | node q w c0 c1 =>
    rw [nextMatch] at h
    rw [node.sizeOf_spec]
    split at h
    · have hle := sizeOf_visit h
      omega
    · have hle := sizeOf_visit h
      omega

/-- The loop that collects the values: `while((child = child->next_match(&key)))`. -/
def lookup (t : Tree α) (key : Prefix) : List α :=
  match hmatch : t.nextMatch key with
  | none => []
  | some (child, key) => child.value.toList ++ child.lookup key
termination_by sizeOf t
decreasing_by exact sizeOf_nextMatch hmatch

/-- The tree that a table begins with. -/
def root : Tree α := .node ⟨0, 0⟩ none .null .null

/-! ## The map of a tree -/

/-- What the tree has at a prefix. -/
def get : Tree α → WordMap α
  | .null => empty
  | .node mPrefix m_value m_child0 m_child1 =>
    under mPrefix.bits (route m_value m_child0.get m_child1.get)

/-- The tree is one that belongs on the side `b` of a node. -/
def Side (b : Bool) : Tree α → Prop
  | .null => True
  | .node mPrefix _ _ _ => 0 < mPrefix.mask ∧ mPrefix.firstBit = b

/-- Prefixes are no longer than addresses, and every child is on its side. -/
def WellFormed : Tree α → Prop
  | .null => True
  | .node mPrefix _ m_child0 m_child1 => mPrefix.mask ≤ 32 ∧ m_child0.WellFormed ∧
      m_child1.WellFormed ∧ m_child0.Side false ∧ m_child1.Side true

variable {t : Tree α} {p q : Prefix} {v : α} {b : Bool}

theorem get_fork (q : Prefix) (w : Option α) (b : Bool) (t t' : Tree α) :
    (fork q w b t t').get = under q.bits (branch b w t.get t'.get) := by
  cases b <;> rfl

theorem get_leaf (p : Prefix) (v : α) :
    (node p (some v) null null).get = put p.bits v empty := (put_empty p.bits v).symm

theorem firstBit_shift (p : Prefix) (n : Nat) : (p.shift n).firstBit = p.value.getMsbD n := by
  unfold Prefix.firstBit Prefix.shift
  rw [BitVec.msb_eq_getMsbD_zero, BitVec.getMsbD_shiftLeft, Nat.zero_add]

/-- A prefix in two parts: what it has in common with another, and the rest. -/
theorem bits_left (hq : q.mask ≤ 32) (p : Prefix) :
    q.bits = (commonPrefix q p).bits ++ (q.shift (commonMaskBits q p)).bits := by
  rw [bits_common_left hq, bits_shift, List.take_append_drop]

theorem bits_right (hq : q.mask ≤ 32) (p : Prefix) :
    p.bits = (commonPrefix q p).bits ++ (p.shift (commonMaskBits q p)).bits := by
  rw [bits_common_right hq, bits_shift, List.take_append_drop]

/-- Where both prefixes go on, they do so on different sides. -/
theorem sides_differ (hq : q.mask ≤ 32) (hlt : commonMaskBits q p < q.mask)
    (hrest : 0 < (p.shift (commonMaskBits q p)).mask) :
    (p.shift (commonMaskBits q p)).firstBit ≠ (q.shift (commonMaskBits q p)).firstBit := by
  have hp : 0 < p.mask - commonMaskBits q p := hrest
  rw [firstBit_shift, firstBit_shift]
  exact (common_differ hq (by omega)).symm

/-- Insertion changes the map at the prefix alone. -/
theorem get_insert (ht : t.WellFormed) (p : Prefix) (v : α) :
    (t.insert p v).get = put p.bits v t.get := by
  induction t generalizing p with
  | null => exact get_leaf p v
  | node q w c0 c1 ih0 ih1 =>
    obtain ⟨hq, ht0, ht1, -, -⟩ := ht
    have hleft := bits_left hq p
    have hright := bits_right hq p
    rw [insert]
    dsimp only
    have hmask : (commonPrefix q p).mask = commonMaskBits q p := rfl
    rw [hmask]
    split
    · rename_i hlt
      have hside : (q.shift (commonMaskBits q p)).bits = _ :=
        bits_eq_cons (p := q.shift (commonMaskBits q p)) (Nat.sub_pos_of_lt hlt)
      have hold : (node q w c0 c1).get = under (commonPrefix q p).bits
          (branch (q.shift (commonMaskBits q p)).firstBit none
            (node (q.shift (commonMaskBits q p)) w c0 c1).get empty) := by
        rw [get, hleft, under_append, hside, under_cons, ← hside]
        rfl
      rw [hold, hright, put_under]
      split
      · rename_i hend
        rw [get_fork, bits_eq_nil hend, put_branch_nil]
        rfl
      · rename_i hgoes
        have hpos := Nat.pos_of_ne_zero hgoes
        rw [get_fork, get_leaf, bits_eq_cons hpos,
          put_branch_other (sides_differ hq hlt hpos)]
    · rename_i hge
      have hall : commonMaskBits q p = q.mask := by
        have hle := commonMaskBits_le q p
        omega
      have hsame : q.bits = (commonPrefix q p).bits := by
        rw [bits_common_left hq, hall, List.take_of_length_le (by rw [length_bits])]
      have hold : (node q w c0 c1).get =
          under (commonPrefix q p).bits (route w c0.get c1.get) := by
        rw [get, hsame]
      rw [hold, hright, put_under]
      split
      · rename_i hend
        rw [bits_eq_nil hend, put_route_nil]
        rfl
      · rename_i hgoes
        have hcons := bits_eq_cons (Nat.pos_of_ne_zero hgoes)
        split
        · rename_i hbit
          rw [get, ih1 ht1, hcons, hbit, put_route_true]
        · rename_i hbit
          rw [get, ih0 ht0, hcons, Bool.eq_false_iff.mpr hbit, put_route_false]

/-! ## The shape of a tree -/

theorem wellFormed_fork (hq : q.mask ≤ 32) {t' : Tree α} {w : Option α} (ht : t.WellFormed)
    (ht' : t'.WellFormed) (hs : t.Side b) (hs' : t'.Side (!b)) :
    (fork q w b t t').WellFormed := by
  cases b
  · exact ⟨hq, ht, ht', hs, hs'⟩
  · exact ⟨hq, ht', ht, hs', hs⟩

/-- Prefixes that begin with the same bit have a bit in common. -/
theorem common_pos (hq : q.mask ≤ 32) (hq' : 0 < q.mask) (hp : 0 < p.mask)
    (h : p.firstBit = q.firstBit) : 0 < commonMaskBits q p := by
  by_contra hzero
  have hnone : commonMaskBits q p = 0 := by omega
  refine common_differ (p := q) (q := p) hq (by omega) ?_
  rw [hnone, ← BitVec.msb_eq_getMsbD_zero, ← BitVec.msb_eq_getMsbD_zero]
  exact h.symm

theorem firstBit_common (hq : q.mask ≤ 32) (h : 0 < commonMaskBits q p) :
    (commonPrefix q p).firstBit = q.firstBit := by
  have hle := commonMaskBits_le q p
  unfold Prefix.firstBit commonPrefix
  rw [BitVec.msb_eq_getMsbD_zero, BitVec.getMsbD_and, maskValue_getMsbD (by omega) (by decide),
    decide_eq_true h, Bool.and_true, BitVec.msb_eq_getMsbD_zero]

/-- A tree stays on its side. -/
theorem side_insert (ht : t.WellFormed) (hs : t.Side b) (hp : 0 < p.mask)
    (hb : p.firstBit = b) (v : α) : (t.insert p v).Side b := by
  cases t with
  | null => exact ⟨hp, hb⟩
  | node q w c0 c1 =>
    obtain ⟨hq, -⟩ := ht
    obtain ⟨hpos, hqb⟩ := hs
    have hcommon := common_pos hq hpos hp (hb.trans hqb.symm)
    have hside : ∀ w c0 c1, (node (commonPrefix q p) w c0 c1 : Tree α).Side b :=
      fun _ _ _ => ⟨hcommon, (firstBit_common hq hcommon).trans hqb⟩
    have hfork : ∀ w b' t t', (fork (commonPrefix q p) w b' t t' : Tree α).Side b := by
      intro w b' t t'
      cases b' <;> exact hside _ _ _
    rw [insert]
    dsimp only
    split
    · split
      · exact hfork _ _ _ _
      · exact hfork _ _ _ _
    · split
      · exact hside _ _ _
      · split
        · exact hside _ _ _
        · exact hside _ _ _

/-- Insertion keeps the tree well-formed. -/
theorem wellFormed_insert (ht : t.WellFormed) (hp : p.mask ≤ 32) (v : α) :
    (t.insert p v).WellFormed := by
  induction t generalizing p with
  | null => exact ⟨hp, trivial, trivial, trivial, trivial⟩
  | node q w c0 c1 ih0 ih1 =>
    obtain ⟨hq, ht0, ht1, hs0, hs1⟩ := ht
    have hle := commonMaskBits_le q p
    have hcommon : (commonPrefix q p).mask ≤ 32 := by
      have hbits : commonMaskBits q p ≤ 32 := by omega
      exact hbits
    have hrest : (p.shift (commonMaskBits q p)).mask ≤ 32 := (Nat.sub_le _ _).trans hp
    rw [insert]
    dsimp only
    have hmask : (commonPrefix q p).mask = commonMaskBits q p := rfl
    rw [hmask]
    split
    · rename_i hlt
      have hsuccessor :
          (node (q.shift (commonMaskBits q p)) w c0 c1).WellFormed :=
        ⟨(Nat.sub_le _ _).trans hq, ht0, ht1, hs0, hs1⟩
      have hside : (node (q.shift (commonMaskBits q p)) w c0 c1).Side
          (q.shift (commonMaskBits q p)).firstBit := ⟨Nat.sub_pos_of_lt hlt, rfl⟩
      split
      · exact wellFormed_fork hcommon hsuccessor trivial hside trivial
      · rename_i hgoes
        have hpos := Nat.pos_of_ne_zero hgoes
        refine wellFormed_fork hcommon hsuccessor ⟨hrest, trivial, trivial, trivial, trivial⟩ hside
          ⟨hpos, ?_⟩
        exact Bool.eq_not_of_ne (sides_differ hq hlt hpos)
    · split
      · exact ⟨hcommon, ht0, ht1, hs0, hs1⟩
      · rename_i hgoes
        have hpos := Nat.pos_of_ne_zero hgoes
        split
        · rename_i hbit
          exact ⟨hcommon, ht0, ih1 ht1 hrest, hs0, side_insert ht1 hs1 hpos hbit v⟩
        · rename_i hbit
          exact ⟨hcommon, ih0 ht0 hrest, ht1,
            side_insert ht0 hs0 hpos (Bool.eq_false_iff.mpr hbit) v, hs1⟩

/-! ## The search -/

/-- The values that a search passes from a child on. -/
def visits : Tree α → Prefix → List α
  | .null, _ => []
  | .node mPrefix m_value m_child0 m_child1, pfx =>
    if (commonPrefix mPrefix pfx).mask = mPrefix.mask then
      let pfx := pfx.shift mPrefix.mask
      m_value.toList ++ if pfx.firstBit then m_child1.visits pfx else m_child0.visits pfx
    else []

/-- The values that a search passes below a node. -/
def found : Tree α → Prefix → List α
  | .null, _ => []
  | .node _ _ m_child0 m_child1, pfx =>
    if pfx.firstBit then m_child1.visits pfx else m_child0.visits pfx

/-- The first value that is passed is the one that the loop stops at. -/
theorem visits_eq (t : Tree α) (p : Prefix) :
    t.visits p = match t.visit p with
      | none => []
      | some (t', p') => t'.value.toList ++ t'.found p' := by
  induction t generalizing p with
  | null => rfl
  | node q w c0 c1 ih0 ih1 =>
    rw [visits, visit]
    dsimp only
    split
    · cases w with
      | some v => rfl
      | none =>
        rw [if_neg (show ¬ (none : Option α).isSome from Bool.false_ne_true)]
        split
        · exact ih1 _
        · exact ih0 _
    · rfl

theorem lookup_eq_below (t : Tree α) (p : Prefix) : t.lookup p = t.found p := by
  have hfound (t : Tree α) (p : Prefix) : t.found p = match t.nextMatch p with
      | none => []
      | some (t', p') => t'.value.toList ++ t'.found p' := by
    cases t with
    | null => rfl
    | node q w c0 c1 =>
      rw [found, nextMatch]
      split
      · exact visits_eq c1 p
      · exact visits_eq c0 p
  fun_induction lookup t p with
  | case1 t key hmatch => rw [hfound, hmatch]
  | case2 t key child key' hmatch ih => rw [hfound, hmatch, ih]

/-- A child is not at the end of a prefix. -/
theorem get_nil_of_side (hs : t.Side b) : t.get [] = none := by
  cases t with
  | null => rfl
  | node q w c0 c1 =>
    refine under_of_not_front fun h => ?_
    have hlength := h.length_le
    rw [length_bits] at hlength
    exact absurd hs.1 (by simpa using hlength)

/-- At the end of the prefix, no child is passed. -/
theorem visits_of_mask_zero (hs : t.Side b) (hp : p.mask = 0) : t.visits p = [] := by
  cases t with
  | null => rfl
  | node q w c0 c1 =>
    have hle := commonMaskBits_le q p
    have hpos := hs.1
    refine if_neg ?_
    have hne : commonMaskBits q p ≠ q.mask := by omega
    exact hne

/-- A search passes the values of the fronts of the prefix. -/
theorem visits_eq_covers (ht : t.WellFormed) (p : Prefix) : t.visits p = covers t.get p.bits := by
  induction t generalizing p with
  | null => exact (covers_empty _).symm
  | node q w c0 c1 ih0 ih1 =>
    obtain ⟨hq, ht0, ht1, hs0, hs1⟩ := ht
    have hfront : (commonPrefix q p).mask = q.mask ↔ q.bits <+: p.bits := common_eq_iff hq
    rw [visits]
    dsimp only
    split
    · rename_i hall
      have hbits : p.bits = q.bits ++ (p.shift q.mask).bits := by
        obtain ⟨rest, hrest⟩ := hfront.mp hall
        rw [bits_shift, ← hrest, List.drop_left' (length_bits q)]
      rw [get, hbits, covers_under_append]
      by_cases hend : (p.shift q.mask).mask = 0
      · rw [bits_eq_nil hend, covers_route_nil, visits_of_mask_zero hs1 hend,
          visits_of_mask_zero hs0 hend, ite_self, List.append_nil]
      · have hcons := bits_eq_cons (Nat.pos_of_ne_zero hend)
        rw [ih1 ht1, ih0 ht0, hcons, covers_route_cons]
        · split <;> rfl
        · split
          · exact get_nil_of_side hs1
          · exact get_nil_of_side hs0
    · rename_i hdiffer
      exact (covers_under_of_not_front (mt hfront.mpr hdiffer)).symm

/-- The tree is one that a table has: its root is at no prefix. -/
structure IsRoot (t : Tree α) : Prop where
  wellFormed : t.WellFormed
  root : ∃ c0 c1, t = .node ⟨0, 0⟩ none c0 c1

theorem get_root (c0 c1 : Tree α) : (node ⟨0, 0⟩ none c0 c1).get = route none c0.get c1.get :=
  under_nil _

/-- The search finds the values that the tree has for the fronts of a prefix. -/
theorem lookup_eq_covers (ht : t.IsRoot) (hp : 0 < p.mask) : t.lookup p = covers t.get p.bits := by
  obtain ⟨hwf, c0, c1, rfl⟩ := ht
  obtain ⟨-, ht0, ht1, hs0, hs1⟩ := hwf
  rw [lookup_eq_below, found, visits_eq_covers ht1, visits_eq_covers ht0, get_root,
    bits_eq_cons hp, covers_route_cons]
  · split <;> rfl
  · split
    · exact get_nil_of_side hs1
    · exact get_nil_of_side hs0

end Tree

end Net

end Zuckerserv
