import Mathlib.Data.List.Basic

/-!
# Sequences in tables

A table that is used as a sequence is a list, whose positions begin with 1.

* `LuaTable.remove` — `table.remove(t, pos)`.
-/

namespace Zuckerserv

namespace LuaTable

variable {α β : Type}

/-- `table.remove(t, pos)`: nothing is removed at a position outside of the sequence. -/
def remove (t : List α) (pos : Nat) : List α :=
  if 1 ≤ pos ∧ pos ≤ t.length then t.eraseIdx (pos - 1) else t

/-- What stands behind a front is removed from there. -/
theorem remove_append (front rest : List α) (a : α) :
    remove (front ++ a :: rest) (front.length + 1) = front ++ rest := by
  have hrange : 1 ≤ front.length + 1 ∧ front.length + 1 ≤ (front ++ a :: rest).length := by
    rw [List.length_append, List.length_cons]
    omega
  rw [remove, if_pos hrange, Nat.add_sub_cancel,
    List.eraseIdx_append_of_length_le (Nat.le_refl _), Nat.sub_self, List.eraseIdx_cons_zero]

/-- A list splits where an element stands. -/
theorem split_at {l : List α} {i : Nat} {a : α} (h : l[i]? = some a) :
    l = l.take i ++ a :: l.drop (i + 1) := by
  obtain ⟨hi, rfl⟩ := List.getElem?_eq_some_iff.mp h
  rw [← List.drop_eq_getElem_cons hi, List.take_append_drop]

/-- Another element in the place of one. -/
theorem set_split {l : List α} {i : Nat} {a b : α} (h : l[i]? = some a) :
    l.set i b = l.take i ++ b :: l.drop (i + 1) := by
  obtain ⟨hi, -⟩ := List.getElem?_eq_some_iff.mp h
  rw [List.set_eq_take_append_cons_drop, if_pos hi]

/-- An element stands behind every place before its own. -/
theorem mem_drop {l : List α} {i j : Nat} {a : α} (h : l[j]? = some a) (hij : i ≤ j) :
    a ∈ l.drop i := by
  refine List.mem_of_getElem? (i := j - i) ?_
  rw [List.getElem?_drop, Nat.add_sub_cancel' hij, h]

/-- A change of an element that a map does not see. -/
theorem map_set_of_eq {l : List α} {i : Nat} {a b : α} {f : α → β} (h : l[i]? = some a)
    (hf : f b = f a) : (l.set i b).map f = l.map f := by
  rw [set_split h]
  conv => rhs; rw [split_at h]
  rw [List.map_append, List.map_append, List.map_cons, List.map_cons, hf]

end LuaTable

end Zuckerserv
