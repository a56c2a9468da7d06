import Mathlib.Data.List.Nodup
import Mathlib.Logic.Function.Basic

/-!
# Counting by key

Every entry of a list has a key, or none. How many entries have a key, when one entry gets another
key, comes or goes.

* `census` — how many entries have a key.
* `census_update` — an entry gets another key.
* `census_concat`, `census_filter_ne` — an entry comes, or goes.
-/

namespace Zuckerserv

namespace Census

variable {ι κ : Type} [DecidableEq κ]

/-- How many entries of the list have the key. -/
def census (l : List ι) (key : ι → Option κ) (k : κ) : Nat := l.countP fun i => key i = some k

/-- What one entry counts for a key. -/
def one (x : Option κ) (k : κ) : Nat := if x = some k then 1 else 0

@[simp] theorem one_none (k : κ) : one none k = 0 := rfl

variable {l : List ι} {key key' : ι → Option κ} {i : ι}

theorem census_cons (j : ι) (l : List ι) (key : ι → Option κ) (k : κ) :
    census (j :: l) key k = census l key k + one (key j) k := by
  unfold census one
  rw [List.countP_cons]
  simp only [decide_eq_true_eq]

theorem census_concat (l : List ι) (key : ι → Option κ) (j : ι) (k : κ) :
    census (l ++ [j]) key k = census l key k + one (key j) k := by
  unfold census
  rw [List.countP_append]
  exact congrArg _ ((census_cons j [] key k).trans (Nat.zero_add _))

theorem census_congr (h : ∀ j ∈ l, key j = key' j) (k : κ) : census l key k = census l key' k := by
  unfold census
  exact List.countP_congr fun j hj => by rw [h j hj]

/-- An entry gets another key. -/
theorem census_update (key key' : ι → Option κ) (hl : l.Nodup) (hi : i ∈ l)
    (hkey : ∀ j ≠ i, key' j = key j) (k : κ) :
    census l key' k + one (key i) k = census l key k + one (key' i) k := by
  induction l with
  | nil => exact absurd hi List.not_mem_nil
  | cons j l ih =>
    obtain ⟨hj, hl⟩ := List.nodup_cons.mp hl
    rw [census_cons, census_cons]
    rcases List.mem_cons.mp hi with rfl | hi
    · have hrest : census l key' k = census l key k :=
        census_congr (fun c hc => hkey c fun h => hj (h ▸ hc)) k
      omega
    · have hne : j ≠ i := fun h => hj (h ▸ hi)
      have hrest := ih hl hi
      rw [hkey j hne]
      omega

/-- An entry is counted. -/
theorem one_le_census (key : ι → Option κ) (hi : i ∈ l) (k : κ) :
    one (key i) k ≤ census l key k := by
  unfold one
  split
  · rename_i hk
    exact List.countP_pos_iff.mpr ⟨i, hi, decide_eq_true hk⟩
  · exact Nat.zero_le _

/-- An entry goes. -/
theorem census_filter_ne [DecidableEq ι] (key : ι → Option κ) (hl : l.Nodup) (hi : i ∈ l) (k : κ) :
    census (l.filter (· ≠ i)) key k + one (key i) k = census l key k := by
  induction l with
  | nil => exact absurd hi List.not_mem_nil
  | cons j l ih =>
    obtain ⟨hj, hl⟩ := List.nodup_cons.mp hl
    rw [census_cons]
    rcases List.mem_cons.mp hi with rfl | hi
    · have hkeep : l.filter (· ≠ i) = l :=
        List.filter_eq_self.mpr fun c hc => decide_eq_true fun h => hj (h ▸ hc)
      rw [List.filter_cons_of_neg (by simp), hkeep]
    · have hne : j ≠ i := fun h => hj (h ▸ hi)
      rw [List.filter_cons_of_pos (by simpa using hne), census_cons]
      have hrest := ih hl hi
      omega

end Census

end Zuckerserv
