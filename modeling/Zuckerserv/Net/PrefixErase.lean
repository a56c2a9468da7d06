import Zuckerserv.Lib.Machine
import Zuckerserv.Net.PrefixLookup

/-!
# Erasing a prefix

What is erased is the value of the last node that a search for the prefix stops at. A node that
loses its value is merged with a child, or taken away where it has none.

* `Tree.erase` — the operation.
* `Tree.Tidy` — no path of the tree is longer than an address.
* `eraseLast_some`, `eraseLast_none` — what becomes of the map.
* `Erasable` — the prefix is the last one that the search finds, and there is only one child to
  merge with.
* `erase_iff` — when nothing but the prefix is erased, in any tree that a run reaches.
-/

namespace Zuckerserv

namespace Net

open Radix Machine

variable {α : Type}

namespace Tree

/-! ## The operation -/

/-- The prefix of a node that is merged with its child. -/
def combine (last tmp : Prefix) : Prefix :=
  ⟨last.value ||| (tmp.value >>> last.mask), last.mask + tmp.mask⟩

/-- What becomes of the last node: one child takes its place, or none. -/
def remove : Tree α → Tree α
  | .node last _ (.node tmp m_value m_child0 m_child1) _ =>
    .node (combine last tmp) m_value m_child0 m_child1
  | .node last _ .null (.node tmp m_value m_child0 m_child1) =>
    .node (combine last tmp) m_value m_child0 m_child1
  | _ => .null

/-- The search for the last node with a value, from a child on, and the removal of it; `none` when
there is no such node. -/
def eraseLast : Tree α → Prefix → Option (Tree α)
  | .null, _ => none
  | .node mPrefix m_value m_child0 m_child1, pfx =>
    if (commonPrefix mPrefix pfx).mask = mPrefix.mask then
      let pfx := pfx.shift mPrefix.mask
      let child := if pfx.firstBit then
          (m_child1.eraseLast pfx).map fun child => .node mPrefix m_value m_child0 child
        else (m_child0.eraseLast pfx).map fun child => .node mPrefix m_value child m_child1
      match child with
      | some t => some t
      | none =>
        if m_value.isSome then some (remove (.node mPrefix m_value m_child0 m_child1)) else none
    else none

/-- `erase(prefix)`. -/
def erase : Tree α → Prefix → Tree α
  | .null, _ => .null
  | .node mPrefix m_value m_child0 m_child1, pfx =>
    if pfx.firstBit then
      .node mPrefix m_value m_child0 ((m_child1.eraseLast pfx).getD m_child1)
    else .node mPrefix m_value ((m_child0.eraseLast pfx).getD m_child0) m_child1

/-! ## The shape of a tree -/

/-- No path of the tree is longer than `n` bits, and what has a child has nothing in its prefix
beyond its length. -/
def Tidy : Nat → Tree α → Prop
  | _, .null => True
  | n, .node mPrefix _ m_child0 m_child1 => mPrefix.mask ≤ n ∧
      ((m_child0 = .null ∧ m_child1 = .null) ∨
        mPrefix.value &&& maskValue mPrefix.mask = mPrefix.value) ∧
      m_child0.Tidy (n - mPrefix.mask) ∧ m_child1.Tidy (n - mPrefix.mask)

/-- The node at a word. -/
def find : Tree α → List Bool → Tree α
  | .null, _ => .null
  | .node mPrefix m_value m_child0 m_child1, bs =>
    if mPrefix.bits <+: bs then
      match bs.drop mPrefix.mask with
      | [] => .node mPrefix m_value m_child0 m_child1
      | false :: bs => m_child0.find (false :: bs)
      | true :: bs => m_child1.find (true :: bs)
    else .null

/-- The node has a first child. -/
def hasFirst : Tree α → Bool
  | .node _ _ (.node ..) _ => true
  | _ => false

variable {t t' : Tree α} {p q : Prefix} {v : α} {b : Bool} {n i : Nat} {w : Option α}
  {c0 c1 : Tree α}

/-- A common prefix has nothing beyond its length. -/
theorem common_clean (q p : Prefix) :
    (commonPrefix q p).value &&& maskValue (commonPrefix q p).mask =
      (commonPrefix q p).value := by
  unfold commonPrefix
  dsimp only
  rw [BitVec.and_assoc, BitVec.and_self]

/-- What has nothing beyond its length has only zeros there. -/
theorem getMsbD_of_clean (hq : q.mask ≤ 32) (hclean : q.value &&& maskValue q.mask = q.value)
    (h : q.mask ≤ i) : q.value.getMsbD i = false := by
  rcases Nat.lt_or_ge i 32 with hi | hi
  · rw [← hclean, BitVec.getMsbD_and, maskValue_getMsbD hq hi,
      decide_eq_false (Nat.not_lt.mpr h), Bool.and_false]
  · exact BitVec.getMsbD_of_ge _ _ hi

theorem shift_clean (hq : q.mask ≤ 32) (hclean : q.value &&& maskValue q.mask = q.value) (n : Nat) :
    (q.shift n).value &&& maskValue (q.shift n).mask = (q.shift n).value := by
  refine BitVec.eq_of_getMsbD_eq fun i hi => ?_
  have hmask : (q.shift n).mask = q.mask - n := rfl
  have hvalue : (q.shift n).value.getMsbD i = q.value.getMsbD (i + n) := BitVec.getMsbD_shiftLeft ..
  rw [BitVec.getMsbD_and, hmask, maskValue_getMsbD (by omega) hi, hvalue]
  by_cases hlt : i < q.mask - n
  · rw [decide_eq_true hlt, Bool.and_true]
  · rw [getMsbD_of_clean hq hclean (by omega), Bool.false_and]

theorem combine_getMsbD (q p : Prefix) (hi : i < 32) :
    (combine q p).value.getMsbD i =
      (q.value.getMsbD i || (!decide (i < q.mask) && p.value.getMsbD (i - q.mask))) := by
  unfold combine
  dsimp only
  rw [BitVec.getMsbD_or, BitVec.getMsbD_ushiftRight, decide_eq_true hi, Bool.true_and]

/-- The bits of a merged node. -/
theorem bits_combine (hsum : q.mask + p.mask ≤ 32)
    (hclean : q.value &&& maskValue q.mask = q.value) :
    (combine q p).bits = q.bits ++ p.bits := by
  refine List.ext_getElem? fun i => ?_
  rcases Nat.lt_or_ge i (q.mask + p.mask) with hi | hi
  · have hleft : (combine q p).bits[i]? = some ((combine q p).value.getMsbD i) := bits_getElem? hi
    rw [hleft, combine_getMsbD q p (by omega)]
    by_cases hlt : i < q.mask
    · rw [List.getElem?_append_left (by rw [length_bits]; exact hlt), bits_getElem? hlt,
        decide_eq_true hlt, Bool.not_true, Bool.false_and, Bool.or_false]
    · rw [List.getElem?_append_right (by rw [length_bits]; omega), length_bits,
        bits_getElem? (by omega), getMsbD_of_clean (by omega) hclean (by omega),
        decide_eq_false hlt, Bool.not_false, Bool.true_and, Bool.false_or]
  · have hlength : (combine q p).bits.length ≤ i := by
      rw [length_bits]
      exact hi
    rw [List.getElem?_eq_none hlength, List.getElem?_eq_none]
    rw [List.length_append, length_bits, length_bits]
    exact hi

theorem tidy_fork (hq : q.mask ≤ n) (hclean : q.value &&& maskValue q.mask = q.value)
    (ht : t.Tidy (n - q.mask)) (ht' : t'.Tidy (n - q.mask)) : (fork q w b t t').Tidy n := by
  cases b
  · exact ⟨hq, .inr hclean, ht, ht'⟩
  · exact ⟨hq, .inr hclean, ht', ht⟩

/-- Insertion keeps the tree tidy. -/
theorem tidy_insert (hn : n ≤ 32) (ht : t.Tidy n) (hp : p.mask ≤ n) (v : α) :
    (t.insert p v).Tidy n := by
  induction t generalizing p n with
  | null => exact ⟨hp, .inl ⟨rfl, rfl⟩, trivial, trivial⟩
  | node q w c0 c1 ih0 ih1 =>
    obtain ⟨hq, hclean, ht0, ht1⟩ := ht
    have hle := commonMaskBits_le q p
    have hcommon : (commonPrefix q p).mask ≤ n := by
      have hbits : commonMaskBits q p ≤ n := by omega
      exact hbits
    have hrest : (p.shift (commonMaskBits q p)).mask ≤ n - commonMaskBits q p :=
      Nat.sub_le_sub_right hp _
    rw [insert]
    dsimp only
    have hmask : (commonPrefix q p).mask = commonMaskBits q p := rfl
    rw [hmask]
    split
    · rename_i hlt
      have hsuccessor : (node (q.shift (commonMaskBits q p)) w c0 c1).Tidy
          (n - (commonPrefix q p).mask) := by
        have hlength : n - commonMaskBits q p - (q.mask - commonMaskBits q p) = n - q.mask := by
          omega
        refine ⟨Nat.sub_le_sub_right hq _, ?_, ?_, ?_⟩
        · exact hclean.imp_right fun h => shift_clean (hq.trans hn) h _
        · exact (congrArg (c0.Tidy ·) hlength).mpr ht0
        · exact (congrArg (c1.Tidy ·) hlength).mpr ht1
      split
      · exact tidy_fork hcommon (common_clean q p) hsuccessor trivial
      · exact tidy_fork hcommon (common_clean q p) hsuccessor
          ⟨hrest, .inl ⟨rfl, rfl⟩, trivial, trivial⟩
    · have hall : commonMaskBits q p = q.mask := by omega
      have hclean := common_clean q p
      split
      · exact ⟨hcommon, .inr hclean, by rwa [hmask, hall], by rwa [hmask, hall]⟩
      · rw [hall] at hrest
        split
        · refine ⟨hcommon, .inr hclean, by rwa [hmask, hall], ?_⟩
          rw [hmask, hall]
          exact ih1 (by omega) ht1 hrest
        · refine ⟨hcommon, .inr hclean, ?_, by rwa [hmask, hall]⟩
          rw [hmask, hall]
          exact ih0 (by omega) ht0 hrest

/-! ## Merging a node with a child -/

/-- A node that is merged has the map of its child, behind its own prefix. -/
theorem get_combine (hsum : q.mask + p.mask ≤ 32)
    (hclean : q.value &&& maskValue q.mask = q.value) (w : Option α) (c0 c1 : Tree α) :
    (node (combine q p) w c0 c1).get = under q.bits (node p w c0 c1).get := by
  rw [get, get, bits_combine hsum hclean, under_append]

/-- A map on one side of a node. -/
theorem get_side (hs : t.Side b) : t.get = branch b none t.get empty := by
  cases t with
  | null =>
    funext bs
    rcases bs with _ | ⟨c, bs⟩
    · cases b <;> rfl
    · cases b <;> cases c <;> rfl
  | node q w c0 c1 =>
    have hcons := bits_eq_cons hs.1
    rw [hs.2] at hcons
    rw [get, hcons]
    exact under_cons _ _ _

/-- What becomes of the map when the node at its root is removed. -/
theorem get_remove (hn : n ≤ 32) (ht : (node q w c0 c1).WellFormed)
    (htidy : (node q w c0 c1).Tidy n) :
    (remove (node q w c0 c1)).get =
      cut (node q w c0 c1).hasFirst q.bits (node q w c0 c1).get := by
  obtain ⟨-, -, -, hs0, hs1⟩ := ht
  obtain ⟨hq, hclean, ht0, ht1⟩ := htidy
  have hcut : cut (node q w c0 c1).hasFirst q.bits (node q w c0 c1).get =
      under q.bits (route none c0.get (if (node q w c0 c1).hasFirst then empty else c1.get)) := by
    rw [get, ← cut_route_nil _ w, ← cut_under, List.append_nil]
  rw [hcut]
  cases c0 with
  | node tq tw t0 t1 =>
    have hmask : tq.mask ≤ n - q.mask := ht0.1
    have hclean := hclean.resolve_left fun h => by cases h.1
    have hside := get_side hs0
    rw [remove, get_combine (by omega) hclean, hside]
    rfl
  | null =>
    cases c1 with
    | node tq tw t0 t1 =>
      have hmask : tq.mask ≤ n - q.mask := ht1.1
      have hclean := hclean.resolve_left fun h => by cases h.2
      have hside := get_side hs1
      rw [remove, get_combine (by omega) hclean, hside]
      rfl
    | null =>
      have hempty : route none (null : Tree α).get
          (if (node q w null null).hasFirst then empty else (null : Tree α).get) = empty := by
        funext bs
        rcases bs with _ | ⟨c, bs⟩
        · rfl
        · cases c <;> rfl
      rw [hempty, under_empty]
      rfl

/-! ## The last node -/

/-- The child on a side. -/
def child (b : Bool) (c0 c1 : Tree α) : Tree α := if b then c1 else c0

/-- The node with another child on a side. -/
def withChild (q : Prefix) (w : Option α) (c0 c1 : Tree α) (b : Bool) (c : Tree α) : Tree α :=
  if b then .node q w c0 c else .node q w c c1

/-- The search goes on at the child on the side of the first bit. -/
theorem eraseLast_node (q : Prefix) (w : Option α) (c0 c1 : Tree α) (p : Prefix) :
    (node q w c0 c1).eraseLast p =
      if (commonPrefix q p).mask = q.mask then
        match (child (p.shift q.mask).firstBit c0 c1).eraseLast (p.shift q.mask) with
        | some c => some (withChild q w c0 c1 (p.shift q.mask).firstBit c)
        | none => if w.isSome then some (remove (node q w c0 c1)) else none
      else none := by
  rw [eraseLast]
  cases hbit : (p.shift q.mask).firstBit with
  | false =>
    simp only [hbit, child, withChild, Bool.false_eq_true, if_false]
    cases c0.eraseLast (p.shift q.mask) <;> rfl
  | true =>
    simp only [hbit, child, withChild, if_true]
    cases c1.eraseLast (p.shift q.mask) <;> rfl

/-- Where all bits of a node are in a prefix, the rest of the prefix follows them. -/
theorem bits_of_all (hq : q.mask ≤ 32) (h : (commonPrefix q p).mask = q.mask) :
    p.bits = q.bits ++ (p.shift q.mask).bits := by
  obtain ⟨rest, hrest⟩ := (common_eq_iff hq).mp h
  rw [bits_shift, ← hrest, List.drop_left' (length_bits q)]

/-- A front of a prefix begins with its first bit. -/
theorem front_eq_cons {L : List Bool} (hL : L <+: p.bits) (hne : L ≠ []) :
    ∃ rest, L = p.firstBit :: rest := by
  obtain ⟨x, rest, rfl⟩ := List.exists_cons_of_ne_nil hne
  have hlength := hL.length_le
  rw [length_bits, List.length_cons] at hlength
  rw [bits_eq_cons (by omega), List.cons_prefix_cons] at hL
  exact ⟨rest, by rw [hL.1]⟩

/-- What a node has for a front of a prefix that goes on below it. -/
theorem get_front {L : List Bool} (q : Prefix) (w : Option α) (c0 c1 : Tree α) (hL : L <+: p.bits)
    (hne : L ≠ []) :
    (node q w c0 c1).get (q.bits ++ L) = (child p.firstBit c0 c1).get L := by
  obtain ⟨rest, rfl⟩ := front_eq_cons hL hne
  rw [get, under_append_word]
  cases p.firstBit <;> rfl

theorem find_front {L : List Bool} (q : Prefix) (w : Option α) (c0 c1 : Tree α) (hL : L <+: p.bits)
    (hne : L ≠ []) :
    (node q w c0 c1).find (q.bits ++ L) = (child p.firstBit c0 c1).find L := by
  obtain ⟨rest, rfl⟩ := front_eq_cons hL hne
  rw [find, if_pos (List.prefix_append _ _), List.drop_left' (length_bits q)]
  cases p.firstBit <;> rfl

theorem find_self (q : Prefix) (w : Option α) (c0 c1 : Tree α) :
    (node q w c0 c1).find q.bits = node q w c0 c1 := by
  rw [find, if_pos (List.prefix_refl _), List.drop_of_length_le (by rw [length_bits])]

theorem child_wellFormed (ht : (node q w c0 c1).WellFormed) (b : Bool) :
    (child b c0 c1).WellFormed := by
  cases b
  · exact ht.2.1
  · exact ht.2.2.1

theorem child_side (ht : (node q w c0 c1).WellFormed) (b : Bool) : (child b c0 c1).Side b := by
  cases b
  · exact ht.2.2.2.1
  · exact ht.2.2.2.2

theorem child_tidy (ht : (node q w c0 c1).Tidy n) (b : Bool) :
    (child b c0 c1).Tidy (n - q.mask) := by
  cases b
  · exact ht.2.2.1
  · exact ht.2.2.2

/-- Nothing is erased where the search finds nothing. -/
theorem eraseLast_none (ht : t.WellFormed) (h : t.eraseLast p = none) :
    ∀ L, L <+: p.bits → t.get L = none := by
  induction t generalizing p with
  | null => exact fun _ _ => rfl
  | node q w c0 c1 ih0 ih1 =>
    intro L hL
    rw [eraseLast_node] at h
    by_cases hfront : q.bits <+: L
    · have hall : (commonPrefix q p).mask = q.mask := (common_eq_iff ht.1).mpr (hfront.trans hL)
      rw [if_pos hall] at h
      obtain ⟨rest, rfl⟩ := hfront
      rw [bits_of_all ht.1 hall, List.prefix_append_right_inj] at hL
      split at h
      · cases h
      · rename_i hchild
        have hw : w = none := by
          split at h
          · cases h
          · rename_i hw
            simpa using hw
        by_cases hne : rest = []
        · subst hne
          rw [get, under_append_word, hw]
          rfl
        · rw [get_front q w c0 c1 hL hne]
          cases hbit : (p.shift q.mask).firstBit with
          | false =>
            rw [hbit] at hchild
            exact ih0 ht.2.1 hchild rest hL
          | true =>
            rw [hbit] at hchild
            exact ih1 ht.2.2.1 hchild rest hL
    · rw [get]
      exact under_of_not_front hfront

/-- The map of a node with another child, which lacks a word. -/
theorem get_withChild {lost : Bool} {L : List Bool} {c : Tree α} (q : Prefix) (w : Option α)
    (c0 c1 : Tree α) (hL : L <+: p.bits) (hne : L ≠ [])
    (hc : c.get = cut lost L (child p.firstBit c0 c1).get) :
    (withChild q w c0 c1 p.firstBit c).get = cut lost (q.bits ++ L) (node q w c0 c1).get := by
  obtain ⟨rest, rfl⟩ := front_eq_cons hL hne
  rw [get, cut_under]
  cases hbit : p.firstBit with
  | false =>
    rw [hbit] at hc
    rw [cut_route_false]
    exact congrArg (fun m => under q.bits (route w m c1.get)) hc
  | true =>
    rw [hbit] at hc
    rw [cut_route_true]
    exact congrArg (fun m => under q.bits (route w c0.get m)) hc

/-- What is erased is the longest prefix with a value that the search finds, and, where its node has
a first child, all that lies below it on the other side. -/
theorem eraseLast_some (hn : n ≤ 32) (ht : t.WellFormed) (htidy : t.Tidy n)
    (h : t.eraseLast p = some t') :
    ∃ L, L <+: p.bits ∧ (t.get L).isSome ∧
      (∀ L', L' <+: p.bits → L.length < L'.length → t.get L' = none) ∧
      t'.get = cut (t.find L).hasFirst L t.get := by
  induction t generalizing p n t' with
  | null => cases h
  | node q w c0 c1 ih0 ih1 =>
    rw [eraseLast_node] at h
    split at h
    · rename_i hall
      have hbits := bits_of_all ht.1 hall
      have hlonger {L' : List Bool} (hL' : L' <+: p.bits) (hlt : q.bits.length < L'.length) :
          ∃ rest, rest ≠ [] ∧ rest <+: (p.shift q.mask).bits ∧ L' = q.bits ++ rest := by
        have hfront : q.bits <+: L' :=
          List.prefix_of_prefix_length_le (hbits ▸ List.prefix_append _ _) hL' (Nat.le_of_lt hlt)
        obtain ⟨rest, rfl⟩ := hfront
        rw [hbits, List.prefix_append_right_inj] at hL'
        refine ⟨rest, ?_, hL', rfl⟩
        rintro rfl
        rw [List.append_nil] at hlt
        exact absurd hlt (Nat.lt_irrefl _)
      split at h
      · rename_i c hchild
        cases h
        have hrec : ∃ L, L <+: (p.shift q.mask).bits ∧
            ((child (p.shift q.mask).firstBit c0 c1).get L).isSome ∧
            (∀ L', L' <+: (p.shift q.mask).bits → L.length < L'.length →
              (child (p.shift q.mask).firstBit c0 c1).get L' = none) ∧
            c.get = cut ((child (p.shift q.mask).firstBit c0 c1).find L).hasFirst L
              (child (p.shift q.mask).firstBit c0 c1).get := by
          cases hbit : (p.shift q.mask).firstBit with
          | false =>
            rw [hbit] at hchild
            exact ih0 ((Nat.sub_le _ _).trans hn) ht.2.1 htidy.2.2.1 hchild
          | true =>
            rw [hbit] at hchild
            exact ih1 ((Nat.sub_le _ _).trans hn) ht.2.2.1 htidy.2.2.2 hchild
        obtain ⟨L, hL, hsome, hlongest, hget⟩ := hrec
        have hne : L ≠ [] := by
          rintro rfl
          rw [get_nil_of_side (child_side ht _)] at hsome
          exact absurd hsome Bool.false_ne_true
        refine ⟨q.bits ++ L, ?_, ?_, fun L' hL' hlt => ?_, ?_⟩
        · rw [hbits]
          exact (List.prefix_append_right_inj _).mpr hL
        · rw [get_front q w c0 c1 hL hne]
          exact hsome
        · rw [List.length_append] at hlt
          obtain ⟨rest, hrest, hfront, rfl⟩ := hlonger hL' (by omega)
          rw [get_front q w c0 c1 hfront hrest]
          rw [List.length_append] at hlt
          exact hlongest rest hfront (by omega)
        · rw [find_front q w c0 c1 hL hne]
          exact get_withChild q w c0 c1 hL hne hget
      · rename_i hchild
        split at h
        · rename_i hw
          cases h
          refine ⟨q.bits, hbits ▸ List.prefix_append _ _, ?_, fun L' hL' hlt => ?_, ?_⟩
          · rw [get, under, if_pos (List.prefix_refl _), List.drop_of_length_le (Nat.le_refl _)]
            exact hw
          · obtain ⟨rest, hrest, hfront, rfl⟩ := hlonger hL' hlt
            rw [get_front q w c0 c1 hfront hrest]
            exact eraseLast_none (child_wellFormed ht _) hchild rest hfront
          · rw [find_self]
            exact get_remove hn ht htidy
        · cases h
    · cases h

/-! ## The shape after an erasure -/

theorem combine_clean (hsum : q.mask + p.mask ≤ 32)
    (hq : q.value &&& maskValue q.mask = q.value) (hp : p.value &&& maskValue p.mask = p.value) :
    (combine q p).value &&& maskValue (combine q p).mask = (combine q p).value := by
  refine BitVec.eq_of_getMsbD_eq fun i hi => ?_
  have hmask : (combine q p).mask = q.mask + p.mask := rfl
  rw [BitVec.getMsbD_and, hmask, maskValue_getMsbD hsum hi]
  by_cases hlt : i < q.mask + p.mask
  · rw [decide_eq_true hlt, Bool.and_true]
  · rw [combine_getMsbD q p hi, getMsbD_of_clean (by omega) hq (by omega),
      getMsbD_of_clean (by omega) hp (by omega), Bool.and_false, Bool.or_false, Bool.false_and]

/-- A node that is merged has the shape of its child. -/
theorem shape_combine (hn : n ≤ 32) (hq : q.mask ≤ n)
    (hclean : q.value &&& maskValue q.mask = q.value) (ht : (node p w c0 c1).WellFormed)
    (htidy : (node p w c0 c1).Tidy (n - q.mask)) :
    (node (combine q p) w c0 c1).WellFormed ∧ (node (combine q p) w c0 c1).Tidy n ∧
      ∀ b, 0 < q.mask → q.firstBit = b → (node (combine q p) w c0 c1).Side b := by
  obtain ⟨-, ht0, ht1, hs0, hs1⟩ := ht
  obtain ⟨hp, hpclean, htidy0, htidy1⟩ := htidy
  have hsum : q.mask + p.mask ≤ n := by omega
  refine ⟨⟨hsum.trans hn, ht0, ht1, hs0, hs1⟩, ⟨hsum, ?_, ?_, ?_⟩, fun b hpos hb => ⟨?_, ?_⟩⟩
  · exact hpclean.imp_right fun h => combine_clean (hsum.trans hn) hclean h
  · rw [Nat.sub_sub] at htidy0
    exact htidy0
  · rw [Nat.sub_sub] at htidy1
    exact htidy1
  · exact Nat.add_pos_left hpos _
  · rw [← hb, Prefix.firstBit, Prefix.firstBit, BitVec.msb_eq_getMsbD_zero,
      BitVec.msb_eq_getMsbD_zero, combine_getMsbD q p (by decide), decide_eq_true hpos,
      Bool.not_true, Bool.false_and, Bool.or_false]

/-- What stays in the place of a node that is removed. -/
theorem shape_remove (hn : n ≤ 32) (ht : (node q w c0 c1).WellFormed)
    (htidy : (node q w c0 c1).Tidy n) :
    (remove (node q w c0 c1)).WellFormed ∧ (remove (node q w c0 c1)).Tidy n ∧
      ∀ b, (node q w c0 c1).Side b → (remove (node q w c0 c1)).Side b := by
  obtain ⟨hq, hclean, htidy0, htidy1⟩ := htidy
  cases c0 with
  | node tq tw t0 t1 =>
    have hclean := hclean.resolve_left fun h => by cases h.1
    obtain ⟨hwf, htidy, hside⟩ := shape_combine hn hq hclean ht.2.1 htidy0
    exact ⟨hwf, htidy, fun b hs => hside b hs.1 hs.2⟩
  | null =>
    cases c1 with
    | node tq tw t0 t1 =>
      have hclean := hclean.resolve_left fun h => by cases h.2
      obtain ⟨hwf, htidy, hside⟩ := shape_combine hn hq hclean ht.2.2.1 htidy1
      exact ⟨hwf, htidy, fun b hs => hside b hs.1 hs.2⟩
    | null => exact ⟨trivial, trivial, fun _ _ => trivial⟩

theorem shape_withChild {c : Tree α} (ht : (node q w c0 c1).WellFormed)
    (htidy : (node q w c0 c1).Tidy n) (hc : c.WellFormed) (hctidy : c.Tidy (n - q.mask))
    (hs : c.Side b) (hnull : child b c0 c1 ≠ null) :
    (withChild q w c0 c1 b c).WellFormed ∧ (withChild q w c0 c1 b c).Tidy n ∧
      ∀ b', (node q w c0 c1).Side b' → (withChild q w c0 c1 b c).Side b' := by
  obtain ⟨hq, ht0, ht1, hs0, hs1⟩ := ht
  obtain ⟨hqn, hclean, htidy0, htidy1⟩ := htidy
  cases b with
  | false =>
    have hclean := hclean.resolve_left fun h => hnull h.1
    exact ⟨⟨hq, hc, ht1, hs, hs1⟩, ⟨hqn, .inr hclean, hctidy, htidy1⟩, fun _ h => h⟩
  | true =>
    have hclean := hclean.resolve_left fun h => hnull h.2
    exact ⟨⟨hq, ht0, hc, hs0, hs⟩, ⟨hqn, .inr hclean, htidy0, hctidy⟩, fun _ h => h⟩

/-- An erasure keeps the shape of the tree. -/
theorem shape_eraseLast (hn : n ≤ 32) (ht : t.WellFormed) (htidy : t.Tidy n)
    (h : t.eraseLast p = some t') :
    t'.WellFormed ∧ t'.Tidy n ∧ ∀ b, t.Side b → t'.Side b := by
  induction t generalizing p n t' with
  | null => cases h
  | node q w c0 c1 ih0 ih1 =>
    rw [eraseLast_node] at h
    split at h
    · split at h
      · rename_i c hchild
        cases h
        have hnull : child (p.shift q.mask).firstBit c0 c1 ≠ null := by
          intro hnull
          rw [hnull] at hchild
          cases hchild
        have hrec : c.WellFormed ∧ c.Tidy (n - q.mask) ∧
            ∀ b, (child (p.shift q.mask).firstBit c0 c1).Side b → c.Side b := by
          cases hbit : (p.shift q.mask).firstBit with
          | false =>
            rw [hbit] at hchild
            exact ih0 ((Nat.sub_le _ _).trans hn) ht.2.1 htidy.2.2.1 hchild
          | true =>
            rw [hbit] at hchild
            exact ih1 ((Nat.sub_le _ _).trans hn) ht.2.2.1 htidy.2.2.2 hchild
        obtain ⟨hwf, hctidy, hside⟩ := hrec
        exact shape_withChild ht htidy hwf hctidy (hside _ (child_side ht _)) hnull
      · split at h
        · cases h
          exact shape_remove hn ht htidy
        · cases h
    · cases h

/-! ## Every run -/

/-- What is done with a table. -/
inductive Op (α : Type)
  | insert (pfx : Prefix) (value : α)
  | erase (pfx : Prefix)

/-- The prefix is one of an address, and not empty. -/
def Op.Proper : Op α → Prop
  | .insert pfx _ | .erase pfx => 0 < pfx.mask ∧ pfx.mask ≤ 32

/-- One step of a table. -/
def step (t : Tree α) : Op α → Tree α
  | .insert pfx value => t.insert pfx value
  | .erase pfx => t.erase pfx

/-- The tree of a table. -/
structure IsTable (t : Tree α) : Prop extends t.IsRoot where
  tidy : t.Tidy 32

theorem erase_root (c0 c1 : Tree α) (p : Prefix) :
    (node ⟨0, 0⟩ none c0 c1).erase p =
      match (child p.firstBit c0 c1).eraseLast p with
      | some c => withChild ⟨0, 0⟩ none c0 c1 p.firstBit c
      | none => node ⟨0, 0⟩ none c0 c1 := by
  rw [erase]
  cases p.firstBit with
  | false =>
    simp only [child, withChild, Bool.false_eq_true, if_false]
    cases c0.eraseLast p <;> rfl
  | true =>
    simp only [child, withChild, if_true]
    cases c1.eraseLast p <;> rfl

theorem IsTable.step (ht : t.IsTable) (op : Op α) (hop : op.Proper) : (step t op).IsTable := by
  cases op with
  | insert p v =>
    exact ⟨ht.toIsRoot.insert hop.1 hop.2 v, tidy_insert (Nat.le_refl _) ht.tidy hop.2 v⟩
  | erase p =>
    obtain ⟨⟨hwf, c0, c1, rfl⟩, htidy⟩ := ht
    unfold Tree.step
    dsimp only
    rw [erase_root]
    split
    · rename_i c hc
      have hshape :=
        shape_eraseLast (Nat.sub_le 32 0) (child_wellFormed hwf _) (child_tidy htidy _) hc
      have hside := hshape.2.2 _ (child_side hwf _)
      have hnull : child p.firstBit c0 c1 ≠ null := by
        intro hnull
        rw [hnull] at hc
        cases hc
      obtain ⟨hwf', htidy', -⟩ :=
        shape_withChild hwf htidy hshape.1 hshape.2.1 hside hnull
      refine ⟨⟨hwf', ?_⟩, htidy'⟩
      unfold withChild
      split <;> exact ⟨_, _, rfl⟩
    · exact ⟨⟨hwf, c0, c1, rfl⟩, htidy⟩

/-- Nothing that is stored covers the prefix; or the prefix is stored, and below its node nothing
is stored on the side of 1, or there is no first child. -/
def Erasable (t : Tree α) (p : Prefix) : Prop :=
  (∀ L, L <+: p.bits → t.get L = none) ∨
    ((t.get p.bits).isSome ∧ ((t.find p.bits).hasFirst = false ∨
      ∀ bs, p.bits ++ [true] <+: bs → t.get bs = none))

/-- Erasing from a table. -/
theorem erase_eq_drop_iff (ht : t.IsTable) (hp : 0 < p.mask) :
    (t.erase p).get = drop p.bits t.get ↔ Erasable t p := by
  obtain ⟨⟨hwf, c0, c1, rfl⟩, htidy⟩ := ht
  have hcons := bits_eq_cons hp
  have hnone : (node ⟨0, 0⟩ none c0 c1 : Tree α).get [] = none := by rw [get_root]; rfl
  have hfront {L : List Bool} (hL : L <+: p.bits) (hne : L ≠ []) :
      (node ⟨0, 0⟩ none c0 c1).get L = (child p.firstBit c0 c1).get L :=
    get_front ⟨0, 0⟩ none c0 c1 hL hne
  rw [erase_root]
  cases herase : (child p.firstBit c0 c1).eraseLast p with
  | none =>
    have hall : ∀ L, L <+: p.bits → (node ⟨0, 0⟩ none c0 c1).get L = none := by
      intro L hL
      by_cases hne : L = []
      · rw [hne, hnone]
      · rw [hfront hL hne]
        exact eraseLast_none (child_wellFormed hwf _) herase L hL
    refine iff_of_true ?_ (.inl hall)
    funext bs
    unfold drop
    by_cases hbs : bs = p.bits
    · rw [if_pos hbs, hbs]
      exact hall _ (List.prefix_refl _)
    · rw [if_neg hbs]
  | some c =>
    obtain ⟨L, hL, hsome, hlongest, hget⟩ :=
      eraseLast_some (Nat.sub_le 32 0) (child_wellFormed hwf _) (child_tidy htidy _) herase
    have hne : L ≠ [] := by
      rintro rfl
      rw [get_nil_of_side (child_side hwf _)] at hsome
      exact absurd hsome Bool.false_ne_true
    have hgetL := hfront hL hne
    have hcut : (withChild ⟨0, 0⟩ none c0 c1 p.firstBit c).get =
        cut ((child p.firstBit c0 c1).find L).hasFirst L (node ⟨0, 0⟩ none c0 c1).get :=
      get_withChild ⟨0, 0⟩ none c0 c1 hL hne hget
    have hfind : (node ⟨0, 0⟩ none c0 c1).find L = (child p.firstBit c0 c1).find L :=
      find_front ⟨0, 0⟩ none c0 c1 hL hne
    dsimp only
    rw [hcut, ← hfind]
    constructor
    · intro hdrop
      rw [← hgetL] at hsome
      obtain rfl := eq_of_cut_eq_drop hsome hdrop
      exact .inr ⟨hsome, (cut_eq_drop_iff _ _ _).mp hdrop⟩
    · rintro (hall | ⟨hstored, hside⟩)
      · rw [← hgetL, hall L hL] at hsome
        exact absurd hsome Bool.false_ne_true
      · have hLp : L = p.bits := by
          by_contra hLp
          have hlt : L.length < p.bits.length :=
            lt_of_le_of_ne hL.length_le fun h => hLp (hL.eq_of_length h)
          have h := hlongest p.bits (List.prefix_refl _) hlt
          rw [← hfront (List.prefix_refl _) (by rw [hcons]; exact List.cons_ne_nil _ _)] at h
          rw [h] at hstored
          exact absurd hstored Bool.false_ne_true
        subst hLp
        exact (cut_eq_drop_iff _ _ _).mpr hside

/-- In any tree that insertions and erasures lead to, an erasure takes away the prefix and nothing
else if and only if the prefix is erasable. -/
theorem erase_iff (ops : List (Op α)) (hops : ∀ op ∈ ops, op.Proper) (p : Prefix)
    (hp : 0 < p.mask ∧ p.mask ≤ 32) :
    ((Machine.run step root ops).erase p).get = drop p.bits (Machine.run step root ops).get ↔
      Erasable (Machine.run step root ops) p := by
  have hroot : (root : Tree α).IsTable :=
    ⟨isRoot_root, Nat.zero_le _, .inl ⟨rfl, rfl⟩, trivial, trivial⟩
  have htable : (Machine.run step root ops).IsTable :=
    (Along.of_forall hops).inv (fun _ op hop ht => ht.step op hop) hroot
  exact erase_eq_drop_iff htable hp.1

/-- A network is stored, and a part of it is erased that is not. -/
theorem network_lost :
    ¬ ((Machine.run step root [.insert ⟨0x0A000000, 8⟩ 1]).erase ⟨0x0A010000, 16⟩).get =
      drop (Prefix.mk 0x0A010000 16).bits
        (Machine.run step root [.insert ⟨0x0A000000, 8⟩ 1]).get := by
  intro h
  have hlost := congrFun h (Prefix.mk 0x0A000000 8).bits
  exact absurd hlost (by decide +kernel)

/-- A network is stored, and erased. -/
theorem erase_iff_network :
    ((Machine.run step root [.insert ⟨0x0A000000, 8⟩ 1]).erase ⟨0x0A000000, 8⟩).get =
      drop (Prefix.mk 0x0A000000 8).bits
        (Machine.run step root [.insert ⟨0x0A000000, 8⟩ 1]).get := by
  refine (erase_iff [.insert ⟨0x0A000000, 8⟩ 1] ?_ ⟨0x0A000000, 8⟩ (by decide)).mpr ?_
  · simp [Op.Proper]
  · exact .inr ⟨by decide +kernel, .inl (by decide +kernel)⟩

end Tree

end Net

end Zuckerserv
