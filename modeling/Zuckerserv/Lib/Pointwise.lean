import Mathlib.Data.List.Forall2

/-!
# Lists that change entry by entry

Rules for `List.Forall₂` with a relation between entries before and after a change.

* `forall₂_trans` — one change after another.
* `forall₂_map_self`, `forall₂_modify` — all entries change, or one does.
* `Forall₂.exists_getElem?` — the entry at an index before and after.
-/

namespace Zuckerserv

namespace Pointwise

variable {α : Type} {r : α → α → Prop}

theorem forall₂_trans (htrans : ∀ a b c, r a b → r b c → r a c) {l l' l'' : List α}
    (h : List.Forall₂ r l l') (h' : List.Forall₂ r l' l'') : List.Forall₂ r l l'' := by
  induction h generalizing l'' with
  | nil =>
    cases h'
    exact .nil
  | cons hab _ ih =>
    cases h' with
    | cons hbc htail => exact .cons (htrans _ _ _ hab hbc) (ih htail)

theorem forall₂_map_self {g : α → α} (l : List α) (h : ∀ a ∈ l, r a (g a)) :
    List.Forall₂ r l (l.map g) := by
  rw [List.forall₂_map_right_iff]
  exact List.forall₂_same.mpr h

theorem forall₂_modify (hrefl : ∀ a, r a a) (l : List α) (i : Nat) {g : α → α}
    (h : ∀ a, l[i]? = some a → r a (g a)) : List.Forall₂ r l (l.modify i g) := by
  induction l generalizing i with
  | nil =>
    rw [List.modify_nil]
    exact .nil
  | cons a l ih =>
    cases i with
    | zero => exact .cons (h a rfl) (List.forall₂_same.mpr fun b _ => hrefl b)
    | succ i => exact .cons (hrefl a) (ih i h)

/-- Every entry has become one at the same index. -/
theorem exists_getElem? {l l' : List α} (h : List.Forall₂ r l l') {i : Nat} {b : α}
    (hb : l'[i]? = some b) : ∃ a, l[i]? = some a ∧ r a b := by
  induction h generalizing i with
  | nil => exact absurd hb (by simp)
  | @cons x y l l' hxy _ ih =>
    cases i with
    | zero =>
      cases hb
      exact ⟨x, rfl, hxy⟩
    | succ i => exact ih hb

/-- Every entry comes from one at the same index. -/
theorem exists_getElem?' {l l' : List α} (h : List.Forall₂ r l l') {i : Nat} {a : α}
    (ha : l[i]? = some a) : ∃ b, l'[i]? = some b ∧ r a b := by
  induction h generalizing i with
  | nil => exact absurd ha (by simp)
  | @cons x y l l' hxy _ ih =>
    cases i with
    | zero =>
      cases ha
      exact ⟨y, rfl, hxy⟩
    | succ i => exact ih ha

end Pointwise

end Zuckerserv
