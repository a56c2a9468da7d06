import Mathlib.Data.List.Basic

/-!
# Lists indexed by machine integers

* `Inrange` — an `int` is an index of a vector.
* `item` — the element at an index that is in range.
-/

namespace Zuckerserv

namespace IntIndex

variable {α : Type}

/-- `bool vector::inrange(int i)`. -/
def Inrange (l : List α) (i : Int32) : Prop := 0 ≤ i ∧ i.toInt < l.length

instance (l : List α) (i : Int32) : Decidable (Inrange l i) := inferInstanceAs (Decidable (_ ∧ _))

/-- `inrange(i) ? v[i] : NULL`. -/
def item (l : List α) (i : Int32) : Option α := if 0 ≤ i then l[i.toInt.toNat]? else none

theorem toInt_toNat {i : Int32} (h : 0 ≤ i) : (i.toInt.toNat : Int) = i.toInt :=
  Int.toNat_of_nonneg (Int32.le_iff_toInt_le.mp h)

theorem item_isSome (l : List α) (i : Int32) : (item l i).isSome ↔ Inrange l i := by
  unfold item Inrange
  split_ifs with h
  · have := toInt_toNat h
    rw [Option.isSome_iff_ne_none, Ne, List.getElem?_eq_none_iff]
    simp only [h, true_and]
    omega
  · simp [h]

theorem item_of_toInt {i : Int32} {k : Nat} (l : List α) (h : i.toInt = k) : item l i = l[k]? := by
  have hi : 0 ≤ i := Int32.le_iff_toInt_le.mpr (by
    rw [h]
    exact Int.natCast_nonneg k)
  rw [item, if_pos hi, h, Int.toNat_natCast]

end IntIndex

end Zuckerserv
