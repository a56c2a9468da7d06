import Mathlib

/-!
# Ranges of memory

Memory is a value for every address, and a range is given by its first address and the one behind
its last. What a range holds is a multiset, so that writing over a cell exchanges one element.

* `content` — what a range holds.
* `content_update` — writing over a cell of the range.
* `Permutes` — the range holds the same elements, and the rest of the memory is as it was.
* `Hole` — the same when a value is kept aside, and its cell is free; `Hole.move`, `Hole.fill`.
* `SortedOn` — no element of the range is less than one before it.
-/

namespace Cells

variable {α : Type*}

/-! ## Accesses -/

/-- Reading the cell at `i`, which has to be in the range. -/
def read (s e : ℤ) (a : ℤ → α) (i : ℤ) : Option α := if s ≤ i ∧ i < e then some (a i) else none

/-- Writing over the cell at `i`, which has to be in the range. -/
def write (s e : ℤ) (a : ℤ → α) (i : ℤ) (v : α) : Option (ℤ → α) :=
  if s ≤ i ∧ i < e then some (Function.update a i v) else none

section Accesses

variable {s e i : ℤ} (hs : s ≤ i) (he : i < e) (a : ℤ → α)
include hs he

theorem read_eq : read s e a i = some (a i) := if_pos ⟨hs, he⟩

theorem write_eq (v : α) : write s e a i v = some (Function.update a i v) := if_pos ⟨hs, he⟩

end Accesses

/-! ## The content of a range -/

/-- The elements of a range. -/
noncomputable def content (a : ℤ → α) (s e : ℤ) : Multiset α := (Multiset.Ico s e).map a

variable {a b c : ℤ → α} {s e m i : ℤ}

theorem content_congr (h : ∀ k, s ≤ k → k < e → a k = b k) : content a s e = content b s e :=
  Multiset.map_congr rfl fun k hk => by
    rw [Multiset.mem_Ico] at hk
    exact h k hk.1 hk.2

theorem content_add (hsm : s ≤ m) (hme : m ≤ e) :
    content a s m + content a m e = content a s e := by
  rw [content, content, ← Multiset.map_add, Multiset.Ico_add_Ico_eq_Ico hsm hme]
  rfl

theorem content_singleton (a : ℤ → α) (i : ℤ) : content a i (i + 1) = {a i} := by
  have hone : Finset.Ico i (i + 1) = {i} := by
    ext k
    rw [Finset.mem_Ico, Finset.mem_singleton]
    omega
  rw [content, Multiset.Ico, hone]
  rfl

/-- Writing over a cell exchanges its element. -/
theorem content_update (hs : s ≤ i) (he : i < e) (v : α) :
    content (Function.update a i v) s e + {a i} = content a s e + {v} := by
  have hother (s' e' : ℤ) (h : i < s' ∨ e' ≤ i) :
      content (Function.update a i v) s' e' = content a s' e' :=
    content_congr fun k h1 h2 => Function.update_of_ne (by omega) _ _
  rw [← content_add hs he.le, ← content_add (Int.le_add_one le_rfl) (Int.add_one_le_of_lt he),
    ← content_add (a := a) hs he.le,
    ← content_add (a := a) (Int.le_add_one le_rfl) (Int.add_one_le_of_lt he),
    hother s i (Or.inr le_rfl), hother (i + 1) e (Or.inl (by omega)), content_singleton,
    content_singleton, Function.update_self]
  abel

theorem forall_mem_content {P : α → Prop} :
    (∀ x ∈ content a s e, P x) ↔ ∀ k, s ≤ k → k < e → P (a k) := by
  rw [content, Multiset.forall_mem_map_iff]
  simp only [Multiset.mem_Ico, and_imp]

/-! ## Permuting a range -/

/-- The range holds the same elements, and the rest of the memory is as it was. -/
structure Permutes (s e : ℤ) (a b : ℤ → α) : Prop where
  content_eq : content b s e = content a s e
  outside : ∀ k, k < s ∨ e ≤ k → b k = a k

theorem Permutes.refl (s e : ℤ) (a : ℤ → α) : Permutes s e a a := ⟨rfl, fun _ _ => rfl⟩

theorem Permutes.trans (hab : Permutes s e a b) (hbc : Permutes s e b c) : Permutes s e a c :=
  ⟨hbc.content_eq.trans hab.content_eq,
    fun k hk => (hbc.outside k hk).trans (hab.outside k hk)⟩

/-- A larger range. -/
theorem Permutes.mono {s' e' : ℤ} (h : Permutes s e a b) (hs : s' ≤ s) (hse : s ≤ e)
    (he : e ≤ e') : Permutes s' e' a b := by
  refine ⟨?_, fun k hk => h.outside k (by omega)⟩
  rw [← content_add hs (hse.trans he), ← content_add hse he,
    ← content_add (a := a) hs (hse.trans he), ← content_add (a := a) hse he, h.content_eq,
    content_congr fun k _ hk => h.outside k (Or.inl hk),
    content_congr fun k hk _ => h.outside k (Or.inr hk)]

/-- What holds of all the elements of the range still does. -/
theorem Permutes.forall_range {P : α → Prop} (h : Permutes s e a b)
    (ha : ∀ k, s ≤ k → k < e → P (a k)) : ∀ k, s ≤ k → k < e → P (b k) := by
  rw [← forall_mem_content, h.content_eq]
  exact forall_mem_content.mpr ha

/-! ## A value kept aside -/

/-- The value `v` has been taken out of the range, and the cell at `i` is free for another one. -/
structure Hole (s e : ℤ) (a b : ℤ → α) (i : ℤ) (v : α) : Prop where
  le : s ≤ i
  lt : i < e
  content_eq : content b s e + {v} = content a s e + {b i}
  outside : ∀ k, k < s ∨ e ≤ k → b k = a k

/-- Taking a value out. -/
theorem Permutes.hole (h : Permutes s e a b) (hs : s ≤ i) (he : i < e) :
    Hole s e a b i (b i) :=
  ⟨hs, he, by rw [h.content_eq], h.outside⟩

variable {v : α}

/-- Moving an element into the free cell, so that its own becomes free. -/
theorem Hole.move (h : Hole s e a b i v) {j : ℤ} (hs : s ≤ j) (he : j < e) :
    Hole s e a (Function.update b i (b j)) j v := by
  by_cases hij : j = i
  · rw [hij, Function.update_eq_self]
    exact h
  · refine ⟨hs, he, ?_, fun k hk => ?_⟩
    · rw [Function.update_of_ne hij]
      have hnew := content_update h.le h.lt (b j) (a := b)
      have hold := h.content_eq
      refine add_right_cancel (b := {b i}) ?_
      calc content (Function.update b i (b j)) s e + {v} + {b i}
          = content (Function.update b i (b j)) s e + {b i} + {v} := add_right_comm _ _ _
        _ = content b s e + {v} + {b j} := by rw [hnew, add_right_comm]
        _ = content a s e + {b j} + {b i} := by rw [hold, add_right_comm]
    · have hle := h.le
      have hlt := h.lt
      rw [Function.update_of_ne (by omega)]
      exact h.outside k hk

/-- Putting the value back into the free cell. -/
theorem Hole.fill (h : Hole s e a b i v) : Permutes s e a (Function.update b i v) := by
  refine ⟨?_, fun k hk => ?_⟩
  · have hnew := content_update h.le h.lt v (a := b)
    rw [h.content_eq] at hnew
    exact add_right_cancel hnew
  · have hle := h.le
    have hlt := h.lt
    rw [Function.update_of_ne (by omega)]
    exact h.outside k hk

/-- Permuting cells of the range other than the free one. -/
theorem Hole.permute (h : Hole s e a b i v) {s' e' : ℤ} (hp : Permutes s' e' b c) (hs : s ≤ s')
    (hse : s' ≤ e') (he : e' ≤ e) (hi : i < s' ∨ e' ≤ i) : Hole s e a c i v := by
  have hmono := hp.mono hs hse he
  refine ⟨h.le, h.lt, ?_, fun k hk => (hmono.outside k hk).trans (h.outside k hk)⟩
  rw [hmono.content_eq, hp.outside i hi]
  exact h.content_eq

/-! ## Sorted ranges -/

/-- No element of the range is less than one before it. -/
def SortedOn (less : α → α → Bool) (a : ℤ → α) (s e : ℤ) : Prop :=
  ∀ p q, s ≤ p → p < q → q < e → ¬ less (a q) (a p)

theorem SortedOn.congr {less : α → α → Bool} (h : SortedOn less a s e)
    (hab : ∀ k, s ≤ k → k < e → b k = a k) : SortedOn less b s e := by
  intro p q hsp hpq hqe
  rw [hab q (by omega) hqe, hab p hsp (by omega)]
  exact h p q hsp hpq hqe

end Cells
