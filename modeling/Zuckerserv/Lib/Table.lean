import Mathlib.Logic.Function.Basic

/-!
# Tables

A table gives a value to some of its keys. What a table says after an entry was set or taken out is
what the entry says, or what the table said before.

* `of_update_none` — an entry of a table that one was taken out of.
* `of_update_some` — an entry of a table that one was set in.
* `of_update_some_none` — a key without an entry in a table that one was set in.
-/

namespace Zuckerserv

namespace Table

variable {κ α : Type} [DecidableEq κ] {f : κ → Option α} {k k' : κ} {x y : α}

theorem of_update_none (h : Function.update f k none k' = some x) : k' ≠ k ∧ f k' = some x := by
  by_cases hk : k' = k
  · subst hk
    rw [Function.update_self] at h
    cases h
  · exact ⟨hk, (Function.update_of_ne hk ..).symm.trans h⟩

theorem of_update_some (h : Function.update f k (some y) k' = some x) :
    (k' = k ∧ x = y) ∨ (k' ≠ k ∧ f k' = some x) := by
  by_cases hk : k' = k
  · subst hk
    rw [Function.update_self] at h
    exact .inl ⟨rfl, (Option.some.inj h).symm⟩
  · exact .inr ⟨hk, (Function.update_of_ne hk ..).symm.trans h⟩

theorem of_update_some_none (h : Function.update f k (some y) k' = none) : k' ≠ k ∧ f k' = none := by
  by_cases hk : k' = k
  · subst hk
    rw [Function.update_self] at h
    cases h
  · exact ⟨hk, (Function.update_of_ne hk ..).symm.trans h⟩

end Table

end Zuckerserv
