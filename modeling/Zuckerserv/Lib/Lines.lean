import Mathlib.Data.List.Basic

/-!
# Lines

A list is cut at a separator: into the parts that end in one, its lines, and the rest.

* `Lines.cut` — the lines and the rest.
* `Lines.join` — lines with their separators.
* `Lines.cut_append` — the cut of what comes in pieces.
-/

namespace Zuckerserv

namespace Lines

variable {α : Type} [DecidableEq α] {sep b b' : α} {xs ys xs' ys' : List α} {n : Nat}

/-- A value is put in front of the first line, or of the rest if there is no line. -/
def push (b : α) : List (List α) × List α → List (List α) × List α
  | ([], rest) => ([], b :: rest)
  | (line :: lines, rest) => ((b :: line) :: lines, rest)

/-- The lines, without their separators, and what is left behind the last separator. -/
def cut (sep : α) : List α → List (List α) × List α
  | [] => ([], [])
  | b :: bs => if b = sep then ([] :: (cut sep bs).1, (cut sep bs).2) else push b (cut sep bs)

/-- Each line with a separator at its end. -/
def join (sep : α) (lines : List (List α)) : List α := (lines.map (· ++ [sep])).flatten

theorem cut_cons_of_ne (h : b ≠ sep) (bs : List α) : cut sep (b :: bs) = push b (cut sep bs) :=
  if_neg h

/-- Without a separator there is no line. -/
theorem cut_of_not_mem (h : sep ∉ xs) : cut sep xs = ([], xs) := by
  induction xs with
  | nil => rfl
  | cons b bs ih =>
    obtain ⟨hne, hrest⟩ := not_or.mp (mt List.mem_cons.mpr h)
    rw [cut_cons_of_ne (Ne.symm hne), ih hrest]
    rfl

/-- A line is cut off. -/
theorem cut_line (h : sep ∉ xs) (ys : List α) :
    cut sep (xs ++ sep :: ys) = (xs :: (cut sep ys).1, (cut sep ys).2) := by
  induction xs with
  | nil => exact if_pos rfl
  | cons b bs ih =>
    obtain ⟨hne, hrest⟩ := not_or.mp (mt List.mem_cons.mpr h)
    rw [List.cons_append, cut_cons_of_ne (Ne.symm hne), ih hrest]
    rfl

/-- There is no separator in the rest. -/
theorem not_mem_rest (sep : α) (xs : List α) : sep ∉ (cut sep xs).2 := by
  induction xs with
  | nil => exact List.not_mem_nil
  | cons b bs ih =>
    by_cases hb : b = sep
    · rw [cut, if_pos hb]
      exact ih
    · rw [cut_cons_of_ne hb]
      rcases hcut : cut sep bs with ⟨_ | ⟨line, lines⟩, rest⟩
      · rw [hcut] at ih
        exact fun hmem => (List.mem_cons.mp hmem).elim (hb ·.symm) ih
      · rw [hcut] at ih
        exact ih

/-- The lines with their separators and the rest are the whole. -/
theorem join_append_rest (sep : α) (xs : List α) :
    join sep (cut sep xs).1 ++ (cut sep xs).2 = xs := by
  induction xs with
  | nil => rfl
  | cons b bs ih =>
    by_cases hb : b = sep
    · rw [cut, if_pos hb, hb]
      exact congrArg (sep :: ·) ih
    · rw [cut_cons_of_ne hb]
      rcases hcut : cut sep bs with ⟨_ | ⟨line, lines⟩, rest⟩
      · rw [hcut] at ih
        exact congrArg (b :: ·) ih
      · rw [hcut] at ih
        exact congrArg (b :: ·) ih

/-- What comes later is cut together with the rest of what came before. -/
theorem cut_append (sep : α) (xs ys : List α) : cut sep (xs ++ ys) =
    ((cut sep xs).1 ++ (cut sep ((cut sep xs).2 ++ ys)).1,
      (cut sep ((cut sep xs).2 ++ ys)).2) := by
  induction xs with
  | nil => rfl
  | cons b bs ih =>
    by_cases hb : b = sep
    · rw [List.cons_append, cut, if_pos hb, cut, if_pos hb, ih]
      rfl
    · rw [List.cons_append, cut_cons_of_ne hb, cut_cons_of_ne hb, ih]
      rcases hcut : cut sep bs with ⟨_ | ⟨line, lines⟩, rest⟩
      · exact (cut_cons_of_ne hb (rest ++ ys)).symm
      · rfl

/-- A value that is no separator goes to the end of the rest. -/
theorem cut_snoc (h : b ≠ sep) (xs : List α) :
    cut sep (xs ++ [b]) = ((cut sep xs).1, (cut sep xs).2 ++ [b]) := by
  have hnot : sep ∉ (cut sep xs).2 ++ [b] := by
    intro hmem
    rcases List.mem_append.mp hmem with hrest | hlast
    · exact not_mem_rest sep xs hrest
    · exact h (List.mem_singleton.mp hlast).symm
  rw [cut_append, cut_of_not_mem hnot, List.append_nil]

/-- There are as many lines as separators. -/
theorem length_lines (sep : α) (xs : List α) : (cut sep xs).1.length = xs.count sep := by
  induction xs with
  | nil => rfl
  | cons b bs ih =>
    by_cases hb : b = sep
    · rw [cut, if_pos hb, hb, List.count_cons_self, ← ih]
      rfl
    · rw [cut_cons_of_ne hb, List.count_cons_of_ne hb, ← ih]
      rcases cut sep bs with ⟨_ | ⟨line, lines⟩, rest⟩ <;> rfl

/-- All lines, and the rest, are shorter than `n`. -/
structure Short (sep : α) (n : Nat) (xs : List α) : Prop where
  lines : ∀ line ∈ (cut sep xs).1, line.length < n
  rest : (cut sep xs).2.length < n

/-- What has been left of short lines is short as well. -/
theorem Short.of_append (h : Short sep n (xs ++ ys)) : (cut sep xs).2.length < n := by
  have hrest := not_mem_rest sep xs
  have hlines := h.lines
  have hlast := h.rest
  rw [cut_append] at hlines hlast
  by_cases hys : sep ∈ ys
  · obtain ⟨front, behind, rfl, hfront⟩ := List.eq_append_cons_of_mem hys
    have hnot : sep ∉ (cut sep xs).2 ++ front := fun hmem =>
      (List.mem_append.mp hmem).elim hrest hfront
    rw [← List.append_assoc, cut_line hnot] at hlines
    have hfirst := hlines _ (List.mem_append_right _ List.mem_cons_self)
    rw [List.length_append] at hfirst
    omega
  · have hnot : sep ∉ (cut sep xs).2 ++ ys := fun hmem => (List.mem_append.mp hmem).elim hrest hys
    rw [cut_of_not_mem hnot, List.length_append] at hlast
    omega

/-- Two lists with the same lines, that are the same but for one value: that value is behind the
last line. -/
theorem eq_or_not_mem_of_cut (hlength : xs.length = xs'.length)
    (hlines : (cut sep (xs ++ b :: ys)).1 = (cut sep (xs' ++ b' :: ys')).1) :
    b = b' ∨ sep ∉ b' :: ys' := by
  have hwhole := join_append_rest sep (xs ++ b :: ys)
  have hwhole' := join_append_rest sep (xs' ++ b' :: ys')
  have hrest' := not_mem_rest sep (xs' ++ b' :: ys')
  rw [hlines] at hwhole
  generalize join sep (cut sep (xs' ++ b' :: ys')).1 = joined at hwhole hwhole'
  generalize (cut sep (xs' ++ b' :: ys')).2 = rest at hwhole' hrest'
  rcases Nat.lt_or_ge xs.length joined.length with hlt | hge
  · -- The value is in a line of both.
    have hget : (xs ++ b :: ys)[xs.length]? = joined[xs.length]? := by
      rw [← hwhole, List.getElem?_append_left hlt]
    have hget' : (xs' ++ b' :: ys')[xs'.length]? = joined[xs'.length]? := by
      rw [← hwhole', List.getElem?_append_left (hlength ▸ hlt)]
    rw [List.getElem?_append_right (Nat.le_refl _), Nat.sub_self] at hget hget'
    rw [← hlength, ← hget] at hget'
    exact .inl (Option.some.inj hget').symm
  · obtain ⟨front, hfront⟩ := List.prefix_of_prefix_length_le ⟨_, hwhole'⟩
      (List.prefix_append xs' (b' :: ys')) (hlength ▸ hge)
    rw [← hfront, List.append_assoc] at hwhole'
    rw [List.append_cancel_left hwhole'] at hrest'
    exact .inr fun hmem => hrest' (List.mem_append_right front hmem)

end Lines

end Zuckerserv
