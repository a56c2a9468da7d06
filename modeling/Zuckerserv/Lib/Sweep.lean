import Mathlib.Data.List.Induction
import Mathlib.Data.List.Perm.Basic
import Mathlib.Logic.Function.Basic
import Mathlib.Algebra.Order.Group.Int

/-!
# Loops that remove entries

A loop that visits the entries of a vector from the last to the first, changes them or removes
them, and fills the place of a removed entry with the last one. Up to the order of what is kept
this is a plain pass over the list.

* `removeunordered`, `sweep` — the loop.
* `scan`, `sweep_perm` — the pass, and that the loop keeps and removes the same.
* `scan_length`, `scan_sublist`, `scan_countP_le` — what a pass keeps.
* `quota`, `quota_countP` — a pass that keeps so many entries of each class.
* `loopvrev_length`, `loopvrev_nodup`, `loopvrev_countP_le`, `loopvrev_quota` — the same for the
  loop.
-/

namespace Zuckerserv

namespace Sweep

variable {α β κ : Type}

/-! ## The loop -/

/-- The entry at an index is removed; the last one takes its place. -/
def removeunordered (l : List α) (i : Nat) : List α :=
  match l.getLast? with
  | none => []
  | some e => (l.set i e).dropLast

/-- The entries before an index are visited, from the last to the first. A visit may change what
the next ones know, and gives the entry that is kept, if any. What is kept, and what is removed. -/
def sweep (visit : κ → α → κ × Option α) : Nat → κ → List α → List α × List α
  | 0, _, l => (l, [])
  | i + 1, k, l =>
    match l[i]? with
    | none => sweep visit i k l
    | some t =>
      match visit k t with
      | (k, some t') => sweep visit i k (l.set i t')
      | (k, none) =>
        let (kept, removed) := sweep visit i k (removeunordered l i)
        (kept, t :: removed)

/-- The whole vector is visited. -/
def loopvrev (visit : κ → α → κ × Option α) (k : κ) (l : List α) : List α × List α :=
  sweep visit l.length k l

/-! ## The pass -/

/-- The entries of a list are visited in order. What is kept, and what is removed. -/
def scan (visit : κ → α → κ × Option α) : κ → List α → List α × List α
  | _, [] => ([], [])
  | k, t :: ts =>
    match visit k t with
    | (k, some t') => (t' :: (scan visit k ts).1, (scan visit k ts).2)
    | (k, none) => ((scan visit k ts).1, t :: (scan visit k ts).2)

theorem removeunordered_append (p q : List α) (a : α) :
    ∃ q', removeunordered (p ++ a :: q) p.length = p ++ q' ∧ q'.Perm q := by
  rcases List.eq_nil_or_concat q with rfl | ⟨q, z, rfl⟩
  · refine ⟨[], ?_, .refl []⟩
    simp [removeunordered]
  · rw [List.concat_eq_append]
    refine ⟨z :: q, ?_, (List.perm_append_singleton z q).symm⟩
    have hlast : (p ++ a :: (q ++ [z])).getLast? = some z := by
      rw [← List.cons_append, ← List.append_assoc]
      exact List.getLast?_concat ..
    unfold removeunordered
    rw [hlast]
    dsimp only
    rw [List.set_append_right _ _ le_rfl, Nat.sub_self, List.set_cons_zero,
      ← List.cons_append, ← List.append_assoc, List.dropLast_concat]

theorem removeunordered_perm {l : List α} {i : Nat} {a : α} (hi : l[i]? = some a) :
    (a :: removeunordered l i).Perm l := by
  obtain ⟨hlt, rfl⟩ := List.getElem?_eq_some_iff.mp hi
  obtain ⟨q', hq, hperm⟩ := removeunordered_append (l.take i) (l.drop (i + 1)) l[i]
  have hl : l.take i ++ l[i] :: l.drop (i + 1) = l := by
    rw [List.getElem_cons_drop, List.take_append_drop]
  rw [hl, List.length_take, Nat.min_eq_left (Nat.le_of_lt hlt)] at hq
  rw [hq]
  refine (List.perm_middle.symm.trans ((hperm.cons _).append_left _)).trans ?_
  rw [hl]

theorem sweep_perm_append (visit : κ → α → κ × Option α) (p : List α) (k : κ) (q : List α) :
    (sweep visit p.length k (p ++ q)).1.Perm ((scan visit k p.reverse).1 ++ q) ∧
      (sweep visit p.length k (p ++ q)).2 = (scan visit k p.reverse).2 := by
  induction p using List.reverseRecOn generalizing k q with
  | nil => exact ⟨.refl q, rfl⟩
  | append_singleton p t ih =>
    have hget : (p ++ [t] ++ q)[p.length]? = some t := by simp
    rw [List.length_append, List.length_singleton, List.reverse_append, List.reverse_singleton,
      List.singleton_append]
    unfold sweep scan
    rw [hget]
    dsimp only
    rcases hvisit : visit k t with ⟨k', _ | t'⟩
    · obtain ⟨q', hremoved, hperm⟩ := removeunordered_append p q t
      rw [List.append_assoc, List.singleton_append, hremoved]
      obtain ⟨hkept, hsame⟩ := ih k' q'
      exact ⟨hkept.trans (hperm.append_left _), congrArg (t :: ·) hsame⟩
    · have hset : (p ++ [t] ++ q).set p.length t' = p ++ t' :: q := by
        rw [List.append_assoc, List.set_append_right _ _ le_rfl, Nat.sub_self]
        rfl
      dsimp only
      rw [hset]
      obtain ⟨hkept, hsame⟩ := ih k' (t' :: q)
      exact ⟨hkept.trans List.perm_middle, hsame⟩

/-- The loop keeps and removes what the pass does. -/
theorem sweep_perm (visit : κ → α → κ × Option α) (k : κ) (l : List α) :
    (loopvrev visit k l).1.Perm (scan visit k l.reverse).1 ∧
      (loopvrev visit k l).2 = (scan visit k l.reverse).2 := by
  have h := sweep_perm_append visit l k []
  rwa [List.append_nil, List.append_nil] at h

/-! ## What a pass keeps -/

variable {visit : κ → α → κ × Option α}

theorem scan_keep {k k' : κ} {t t' : α} {l : List α} (h : visit k t = (k', some t')) :
    scan visit k (t :: l) = (t' :: (scan visit k' l).1, (scan visit k' l).2) := by
  rw [scan, h]

theorem scan_remove {k k' : κ} {t : α} {l : List α} (h : visit k t = (k', none)) :
    scan visit k (t :: l) = ((scan visit k' l).1, t :: (scan visit k' l).2) := by
  rw [scan, h]

theorem scan_length (visit : κ → α → κ × Option α) (k : κ) (l : List α) :
    (scan visit k l).1.length + (scan visit k l).2.length = l.length := by
  induction l generalizing k with
  | nil => rfl
  | cons t l ih =>
    unfold scan
    rcases visit k t with ⟨k', _ | t'⟩
    · have h := ih k'
      simp only [List.length_cons]
      omega
    · have h := ih k'
      simp only [List.length_cons]
      omega

/-- What a visit does not change of an entry is kept in order. -/
theorem scan_sublist {f : α → β} (hf : ∀ k t k' t', visit k t = (k', some t') → f t' = f t)
    (k : κ) (l : List α) : ((scan visit k l).1.map f).Sublist (l.map f) := by
  induction l generalizing k with
  | nil => exact .slnil
  | cons t l ih =>
    unfold scan
    rcases hvisit : visit k t with ⟨k', _ | t'⟩
    · exact (ih k').cons _
    · rw [List.map_cons, List.map_cons, hf k t k' t' hvisit]
      exact (ih k').cons_cons _

/-- A pass that gives no entry a property leaves at most as many with it. -/
theorem scan_countP_le {q : α → Bool}
    (hq : ∀ k t k' t', visit k t = (k', some t') → q t' = true → q t = true) (k : κ) (l : List α) :
    (scan visit k l).1.countP q ≤ l.countP q := by
  induction l generalizing k with
  | nil => exact le_rfl
  | cons t l ih =>
    unfold scan
    rcases hvisit : visit k t with ⟨k', _ | t'⟩
    · dsimp only
      rw [List.countP_cons]
      exact (ih k').trans (Nat.le_add_right ..)
    · dsimp only
      rw [List.countP_cons, List.countP_cons]
      have h := hq k t k' t' hvisit
      have hrest := ih k'
      split <;> split <;> first | omega | (rename_i hnot; exact absurd (h ‹_›) hnot)

/-! ## Quotas -/

variable {ι : Type} [DecidableEq ι]

/-- Entries of a class are counted, and touched; beyond the limit they are removed. -/
def quota (cls : α → Option ι) (touch : α → α) (limit : Int) (k : ι → Int) (t : α) :
    (ι → Int) × Option α :=
  match cls t with
  | none => (k, some t)
  | some c =>
    let k := Function.update k c (k c + 1)
    (k, if k c > limit then none else some (touch t))

variable {cls : α → Option ι} {touch : α → α} {limit : Int}

/-- An entry that is kept is touched, or has no class. -/
theorem quota_kept {k k' : ι → Int} {t t' : α}
    (h : quota cls touch limit k t = (k', some t')) : t' = touch t ∨ (t' = t ∧ cls t = none) := by
  unfold quota at h
  cases hcls : cls t with
  | none =>
    rw [hcls] at h
    obtain ⟨-, ⟨⟩⟩ := Prod.mk.inj h
    exact .inr ⟨rfl, rfl⟩
  | some c =>
    rw [hcls] at h
    obtain ⟨-, hkept⟩ := Prod.mk.inj h
    split at hkept
    · cases hkept
    · obtain ⟨⟩ := hkept
      exact .inl rfl

theorem quota_of_none {t : α} (h : cls t = none) (k : ι → Int) :
    quota cls touch limit k t = (k, some t) := by
  unfold quota
  rw [h]

theorem quota_of_some {t : α} {c : ι} (h : cls t = some c) (k : ι → Int) :
    quota cls touch limit k t = (Function.update k c (k c + 1),
      if k c + 1 > limit then none else some (touch t)) := by
  unfold quota
  rw [h]
  dsimp only
  rw [Function.update_self]

/-- A pass with a quota keeps no more entries of a class than the limit allows. -/
theorem quota_countP {q : α → Bool} {c : ι} (hnone : ∀ t, cls t = none → q t = false)
    (hsome : ∀ t c', cls t = some c' → q (touch t) = true → c' = c) (k : ι → Int) (l : List α) :
    ((scan (quota cls touch limit) k l).1.countP q : Int) ≤ max 0 (limit - k c) := by
  induction l generalizing k with
  | nil => exact le_max_left ..
  | cons t l ih =>
    cases hcls : cls t with
    | none =>
      rw [scan_keep (quota_of_none hcls k)]
      dsimp only
      rw [List.countP_cons_of_neg (by rw [hnone t hcls]; exact Bool.false_ne_true)]
      exact ih k
    | some c' =>
      have hvisit : quota cls touch limit k t = (Function.update k c' (k c' + 1),
          if k c' + 1 > limit then none else some (touch t)) := quota_of_some hcls k
      have hrest := ih (Function.update k c' (k c' + 1))
      by_cases hc : c' = c
      · subst hc
        rw [Function.update_self] at hrest
        split at hvisit
        · rw [scan_remove hvisit]
          dsimp only
          omega
        · rw [scan_keep hvisit]
          dsimp only
          rw [List.countP_cons]
          split <;> omega
      · rw [Function.update_of_ne (Ne.symm hc)] at hrest
        split at hvisit
        · rw [scan_remove hvisit]
          exact hrest
        · rw [scan_keep hvisit]
          dsimp only
          rw [List.countP_cons_of_neg fun hq => hc (hsome t c' hcls hq)]
          exact hrest

/-! ## What the loop keeps -/

theorem loopvrev_length (visit : κ → α → κ × Option α) (k : κ) (l : List α) :
    (loopvrev visit k l).1.length + (loopvrev visit k l).2.length = l.length := by
  obtain ⟨hkept, hremoved⟩ := sweep_perm visit k l
  rw [hkept.length_eq, hremoved, scan_length, List.length_reverse]

/-- What tells the entries apart still does. -/
theorem loopvrev_nodup {f : α → β} (hf : ∀ k t k' t', visit k t = (k', some t') → f t' = f t)
    {k : κ} {l : List α} (hl : (l.map f).Nodup) : ((loopvrev visit k l).1.map f).Nodup := by
  refine ((sweep_perm visit k l).1.map f).nodup_iff.mpr ((scan_sublist hf k l.reverse).nodup ?_)
  rw [List.map_reverse]
  exact (List.reverse_perm _).nodup_iff.mpr hl

/-- Every entry that is kept comes from one of the vector. -/
theorem loopvrev_mem {f : α → β} (hf : ∀ k t k' t', visit k t = (k', some t') → f t' = f t)
    {k : κ} {l : List α} {t' : α} (h : t' ∈ (loopvrev visit k l).1) : ∃ t ∈ l, f t' = f t := by
  have hmem := (scan_sublist hf k l.reverse).subset
    (List.mem_map_of_mem ((sweep_perm visit k l).1.mem_iff.mp h))
  obtain ⟨t, ht, heq⟩ := List.mem_map.mp hmem
  exact ⟨t, List.mem_reverse.mp ht, heq.symm⟩

theorem loopvrev_countP_le {q : α → Bool}
    (hq : ∀ k t k' t', visit k t = (k', some t') → q t' = true → q t = true) (k : κ) (l : List α) :
    (loopvrev visit k l).1.countP q ≤ l.countP q := by
  rw [(sweep_perm visit k l).1.countP_eq, ← List.countP_reverse (l := l)]
  exact scan_countP_le hq k l.reverse

theorem loopvrev_quota {q : α → Bool} {c : ι} (hnone : ∀ t, cls t = none → q t = false)
    (hsome : ∀ t c', cls t = some c' → q (touch t) = true → c' = c) (k : ι → Int) (l : List α) :
    ((loopvrev (quota cls touch limit) k l).1.countP q : Int) ≤ max 0 (limit - k c) := by
  rw [(sweep_perm _ k l).1.countP_eq]
  exact quota_countP hnone hsome k l.reverse

end Sweep

end Zuckerserv
