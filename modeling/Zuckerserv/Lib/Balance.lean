import Mathlib.Algebra.BigOperators.Group.Finset.Basic
import Mathlib.Algebra.Order.Ring.Nat
import Mathlib.Tactic.Ring

/-!
# Loads that are evened out

Units are spread over places. A unit that goes from a place to one with at least two units less
makes the sum of the squares of the loads smaller, so this can not go on for ever.

* `Move` — one unit goes from a place to another.
* `energy` — the sum of the squares.
* `Move.energy_lt` — it gets smaller.
-/

namespace Balance

open scoped BigOperators

variable {ι : Type*} {load load' : ι → ℕ} {hi lo : ι}

/-- One unit goes from `hi` to `lo`. -/
structure Move (hi lo : ι) (load load' : ι → ℕ) : Prop where
  leaves : load' hi + 1 = load hi
  arrives : load' lo = load lo + 1
  other : ∀ i, i ≠ hi → i ≠ lo → load' i = load i

/-- The sum of the squares of the loads. -/
def energy (places : Finset ι) (load : ι → ℕ) : ℕ := ∑ i ∈ places, load i * load i

/-- The summands of two places, and the rest. -/
theorem energy_eq [DecidableEq ι] {places : Finset ι} (load : ι → ℕ) (hhi : hi ∈ places)
    (hlo : lo ∈ places) (hne : hi ≠ lo) : energy places load =
      load hi * load hi + (load lo * load lo + energy ((places.erase hi).erase lo) load) := by
  have hlo' : lo ∈ places.erase hi := Finset.mem_erase.mpr ⟨hne.symm, hlo⟩
  unfold energy
  rw [Finset.add_sum_erase _ (fun i => load i * load i) hlo',
    Finset.add_sum_erase _ (fun i => load i * load i) hhi]

/-- A unit that goes down by at least two makes the sum of the squares smaller. -/
theorem Move.energy_lt (h : Move hi lo load load') {places : Finset ι} (hhi : hi ∈ places)
    (hlo : lo ∈ places) (hgap : load lo + 1 < load hi) :
    energy places load' < energy places load := by
  classical
  have hne : hi ≠ lo := by
    rintro rfl
    omega
  have hrest : energy ((places.erase hi).erase lo) load' =
      energy ((places.erase hi).erase lo) load := by
    refine Finset.sum_congr rfl fun i hi => ?_
    obtain ⟨hilo, hi⟩ := Finset.mem_erase.mp hi
    rw [h.other i (Finset.mem_erase.mp hi).1 hilo]
  rw [energy_eq load' hhi hlo hne, energy_eq load hhi hlo hne, hrest, h.arrives, ← h.leaves]
  have hgap' : load lo + 1 ≤ load' hi := by
    have := h.leaves
    omega
  have hsquares : load' hi * load' hi + (load lo + 1) * (load lo + 1) <
      (load' hi + 1) * (load' hi + 1) + load lo * load lo := by
    have hexpand : (load' hi + 1) * (load' hi + 1) = load' hi * load' hi + 2 * load' hi + 1 := by
      ring
    have hexpand' : (load lo + 1) * (load lo + 1) = load lo * load lo + 2 * load lo + 1 := by
      ring
    omega
  omega

end Balance
