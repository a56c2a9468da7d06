import Mathlib.Data.Finset.Card
import Mathlib.Order.Bounds.Basic

/-!
# Dense ranks

The dense rank of a value is one more than the number of different values above it. When values come
in descending order, a counter that goes up with each new value is this rank.

* `rank` — the dense rank.
* `Upto` — the counter after some values.
* `Upto.next`, `Upto.eq_rank` — one value more, and its rank.
-/

namespace DenseRank

variable {α : Type*} [LinearOrder α]

/-- The dense rank of a value among others. -/
def rank (values : Finset α) (v : α) : ℕ := (values.filter (v < ·)).card + 1

/-- The counter `n` after the values `seen`, of which `prev` was the last one. -/
structure Upto (seen : Finset α) (prev : Option α) (n : ℕ) : Prop where
  count : n = seen.card
  last : ∀ v, prev = some v → IsLeast (seen : Set α) v
  empty : prev = none → seen = ∅

theorem upto_start : Upto (∅ : Finset α) none 0 := ⟨rfl, nofun, fun _ => rfl⟩

variable {seen : Finset α} {prev : Option α} {n : ℕ} {v : α}

/-- The counter stays at the value that came last and goes up at another one. -/
theorem Upto.next (h : Upto seen prev n) (hv : ∀ w ∈ seen, v ≤ w) :
    Upto (insert v seen) (some v) (if prev = some v then n else n + 1) := by
  refine ⟨?_, fun w hw => ?_, nofun⟩
  · split
    · rename_i hprev
      have hmem : v ∈ seen := (h.last v hprev).1
      rw [Finset.insert_eq_of_mem hmem, h.count]
    · rename_i hprev
      have hnot : v ∉ seen := by
        intro hmem
        cases hp : prev with
        | none =>
          rw [h.empty hp] at hmem
          exact absurd hmem (Finset.notMem_empty v)
        | some p =>
          have hleast := h.last p hp
          exact hprev (hp.trans (congrArg some (le_antisymm (hleast.2 hmem) (hv p hleast.1))))
      rw [Finset.card_insert_of_notMem hnot, h.count]
  · obtain rfl := Option.some_inj.mp hw
    refine ⟨Finset.mem_coe.mpr (Finset.mem_insert_self _ _), fun w hw => ?_⟩
    rcases Finset.mem_insert.mp (Finset.mem_coe.mp hw) with rfl | hw
    · exact le_refl _
    · exact hv w hw

/-- The counter is the rank of the value that came last, whatever smaller values follow. -/
theorem Upto.eq_rank (h : Upto seen (some v) n) {values : Finset α} (hseen : seen ⊆ values)
    (hrest : ∀ w ∈ values, w ∉ seen → w ≤ v) : n = rank values v := by
  have hleast := h.last v rfl
  have habove : values.filter (v < ·) = seen.erase v := by
    ext w
    rw [Finset.mem_filter, Finset.mem_erase]
    constructor
    · rintro ⟨hw, hlt⟩
      refine ⟨hlt.ne', ?_⟩
      by_contra hnot
      exact absurd (hrest w hw hnot) (not_le.mpr hlt)
    · rintro ⟨hne, hw⟩
      exact ⟨hseen hw, lt_of_le_of_ne (hleast.2 (Finset.mem_coe.mpr hw)) hne.symm⟩
  have hpos : 0 < seen.card := Finset.card_pos.mpr ⟨v, hleast.1⟩
  rw [DenseRank.rank, habove, Finset.card_erase_of_mem hleast.1, h.count]
  omega

end DenseRank
