import Mathlib.Data.List.Infix

/-!
# Maps from words

Maps from words of bits, as the nodes of a radix tree build them: a map below a front, and a map
that branches at the first bit.

* `under`, `route`, `branch` — maps below a front, and branching.
* `put`, `drop`, `cut` — maps changed at one word, or below it.
* `covers` — the values of all fronts of a word, the shorter ones first.
-/

namespace Zuckerserv

namespace Radix

variable {α : Type} {front rest : List Bool}

/-- A map from words. -/
abbrev WordMap (α : Type) := List Bool → Option α

/-- The map that has nothing. -/
def empty : WordMap α := fun _ => none

/-- The words of a map, each behind a front. -/
def under (front : List Bool) (m : WordMap α) : WordMap α := fun bs =>
  if front <+: bs then m (bs.drop front.length) else none

/-- One value for the empty word, and a map for each first bit. -/
def route (w : Option α) (m0 m1 : WordMap α) : WordMap α
  | [] => w
  | false :: bs => m0 (false :: bs)
  | true :: bs => m1 (true :: bs)

/-- The map with a value for a word. -/
def put (word : List Bool) (v : α) (m : WordMap α) : WordMap α := fun bs =>
  if bs = word then some v else m bs

/-- The map without a word. -/
def drop (word : List Bool) (m : WordMap α) : WordMap α := fun bs =>
  if bs = word then none else m bs

/-- The map without a word, and, where `lost`, without what goes on from it with the bit 1. -/
def cut (lost : Bool) (word : List Bool) (m : WordMap α) : WordMap α := fun bs =>
  if bs = word ∨ (lost = true ∧ word ++ [true] <+: bs) then none else m bs

/-- A map for the bit `b`, and one for the other bit. -/
def branch (b : Bool) (w : Option α) (m m' : WordMap α) : WordMap α :=
  if b then route w m' m else route w m m'

/-- The values of the fronts of a word. -/
def covers (m : WordMap α) (bs : List Bool) : List α := bs.inits.filterMap m

variable {m m0 m1 : WordMap α} {w : Option α} {v : α} {bs : List Bool}

theorem under_nil (m : WordMap α) : under [] m = m := by
  funext bs
  rw [under, if_pos List.nil_prefix]
  rfl

theorem under_append_word (front bs : List Bool) (m : WordMap α) :
    under front m (front ++ bs) = m bs := by
  rw [under, if_pos (List.prefix_append _ _), List.drop_left]

theorem under_of_not_front (h : ¬ front <+: bs) : under front m bs = none := if_neg h

theorem under_empty (front : List Bool) : under front (empty : WordMap α) = empty := by
  funext bs
  unfold under
  split <;> rfl

/-- A front in two parts. -/
theorem under_append (front rest : List Bool) (m : WordMap α) :
    under (front ++ rest) m = under front (under rest m) := by
  funext bs
  by_cases h : front <+: bs
  · obtain ⟨bs, rfl⟩ := h
    rw [under_append_word]
    refine if_congr (List.prefix_append_right_inj front) ?_ rfl
    rw [List.length_append, ← List.drop_drop, List.drop_left]
  · rw [under_of_not_front h,
      under_of_not_front fun h' => h ((List.prefix_append _ _).trans h')]

/-- A change behind the front. -/
theorem put_under (front rest : List Bool) (v : α) (m : WordMap α) :
    put (front ++ rest) v (under front m) = under front (put rest v m) := by
  funext bs
  by_cases h : front <+: bs
  · obtain ⟨bs, rfl⟩ := h
    rw [under_append_word]
    exact if_congr (List.append_cancel_left_eq ..).to_iff rfl (under_append_word front bs m)
  · have hne : bs ≠ front ++ rest := by
      rintro rfl
      exact h (List.prefix_append _ _)
    rw [under_of_not_front h, put, if_neg hne, under_of_not_front h]

theorem cut_under (lost : Bool) (front rest : List Bool) (m : WordMap α) :
    cut lost (front ++ rest) (under front m) = under front (cut lost rest m) := by
  funext bs
  by_cases h : front <+: bs
  · obtain ⟨bs, rfl⟩ := h
    rw [under_append_word]
    refine if_congr (or_congr (List.append_cancel_left_eq ..).to_iff (and_congr_right' ?_)) rfl
      (under_append_word front bs m)
    rw [List.append_assoc, List.prefix_append_right_inj]
  · rw [under_of_not_front h]
    unfold cut
    rw [under_of_not_front h, ite_self]

/-- The map of one word. -/
theorem put_empty (word : List Bool) (v : α) :
    put word v empty = under word (route (some v) empty empty) := by
  have h := put_under word [] v empty
  rw [List.append_nil, under_empty] at h
  rw [h]
  congr 1
  funext bs
  match bs with
  | [] => rfl
  | false :: bs => rfl
  | true :: bs => rfl

theorem put_route_nil (w : Option α) (m0 m1 : WordMap α) (v : α) :
    put [] v (route w m0 m1) = route (some v) m0 m1 := by
  funext bs
  match bs with
  | [] => rfl
  | false :: bs => rfl
  | true :: bs => rfl

theorem cut_route_nil (lost : Bool) (w : Option α) (m0 m1 : WordMap α) :
    cut lost [] (route w m0 m1) = route none m0 (if lost then empty else m1) := by
  funext bs
  match bs with
  | [] => rfl
  | false :: bs => exact if_neg (by simp)
  | true :: bs =>
    cases lost with
    | false => exact if_neg (by simp)
    | true => exact if_pos (.inr ⟨rfl, List.prefix_append [true] bs⟩)

theorem put_route_false (w : Option α) (m0 m1 : WordMap α) (v : α) (rest : List Bool) :
    put (false :: rest) v (route w m0 m1) = route w (put (false :: rest) v m0) m1 := by
  funext bs
  match bs with
  | [] => rfl
  | false :: bs => rfl
  | true :: bs => exact if_neg (by simp)

theorem put_route_true (w : Option α) (m0 m1 : WordMap α) (v : α) (rest : List Bool) :
    put (true :: rest) v (route w m0 m1) = route w m0 (put (true :: rest) v m1) := by
  funext bs
  match bs with
  | [] => rfl
  | false :: bs => exact if_neg (by simp)
  | true :: bs => rfl

theorem cut_route_false (lost : Bool) (w : Option α) (m0 m1 : WordMap α) (rest : List Bool) :
    cut lost (false :: rest) (route w m0 m1) = route w (cut lost (false :: rest) m0) m1 := by
  funext bs
  match bs with
  | [] => exact if_neg (by simp)
  | false :: bs => rfl
  | true :: bs => exact if_neg (by simp)

theorem cut_route_true (lost : Bool) (w : Option α) (m0 m1 : WordMap α) (rest : List Bool) :
    cut lost (true :: rest) (route w m0 m1) = route w m0 (cut lost (true :: rest) m1) := by
  funext bs
  match bs with
  | [] => exact if_neg (by simp)
  | false :: bs => exact if_neg (by simp)
  | true :: bs => rfl

theorem put_branch_nil (b : Bool) (w : Option α) (m m' : WordMap α) (v : α) :
    put [] v (branch b w m m') = branch b (some v) m m' := by
  cases b <;> exact put_route_nil _ _ _ _

theorem put_branch_other {b b' : Bool} (h : b' ≠ b) (w : Option α) (m m' : WordMap α) (v : α)
    (rest : List Bool) :
    put (b' :: rest) v (branch b w m m') = branch b w m (put (b' :: rest) v m') := by
  cases b <;> cases b'
  · exact absurd rfl h
  · exact put_route_true _ _ _ _ _
  · exact put_route_false _ _ _ _ _
  · exact absurd rfl h

/-- What begins with a bit is on its side alone. -/
theorem under_cons (b : Bool) (rest : List Bool) (m : WordMap α) :
    under (b :: rest) m = branch b none (under (b :: rest) m) empty := by
  funext bs
  cases b with
  | false =>
    match bs with
    | [] => exact if_neg (by simp)
    | false :: bs => rfl
    | true :: bs => exact if_neg (by simp)
  | true =>
    match bs with
    | [] => exact if_neg (by simp)
    | false :: bs => exact if_neg (by simp)
    | true :: bs => rfl

/-! ## Covers -/

theorem covers_empty (bs : List Bool) : covers (empty : WordMap α) bs = [] :=
  List.filterMap_eq_nil_iff.mpr fun _ _ => rfl

theorem covers_under_append (front bs : List Bool) (m : WordMap α) :
    covers (under front m) (front ++ bs) = covers m bs := by
  induction front with
  | nil => rw [under_nil, List.nil_append]
  | cons b front ih =>
    unfold covers at ih ⊢
    have hnil : under (b :: front) m [] = none := if_neg (by simp)
    rw [List.cons_append, List.inits_cons, List.filterMap_cons_none hnil,
      List.filterMap_map, ← ih]
    refine List.filterMap_congr fun x _ => ?_
    have h := congrFun (under_append [b] front m) (b :: x)
    have h' := under_append_word [b] x (under front m)
    exact h.trans h'

theorem covers_under_of_not_front (h : ¬ front <+: bs) : covers (under front m) bs = [] := by
  refine List.filterMap_eq_nil_iff.mpr fun x hx => if_neg fun hfront => h ?_
  exact hfront.trans ((List.mem_inits _ _).mp hx)

theorem covers_route_nil (w : Option α) (m0 m1 : WordMap α) :
    covers (route w m0 m1) [] = w.toList := by
  cases w <;> rfl

theorem covers_route_cons (b : Bool) (bs : List Bool) (w : Option α) (m0 m1 : WordMap α)
    (hnil : (if b then m1 else m0) [] = none) :
    covers (route w m0 m1) (b :: bs) = w.toList ++ covers (if b then m1 else m0) (b :: bs) := by
  unfold covers
  rw [List.inits_cons, List.filterMap_cons_none hnil, List.filterMap_map, List.filterMap_cons,
    List.filterMap_map]
  have hrest : bs.inits.filterMap (route w m0 m1 ∘ (b :: ·)) =
      bs.inits.filterMap ((if b then m1 else m0) ∘ (b :: ·)) := by
    refine List.filterMap_congr fun x _ => ?_
    cases b <;> rfl
  rw [hrest]
  cases w <;> rfl

theorem covers_cons (m : WordMap α) (b : Bool) (bs : List Bool) :
    covers m (b :: bs) = (m []).toList ++ covers (fun w => m (b :: w)) bs := by
  unfold covers
  rw [List.inits_cons, List.filterMap_cons, List.filterMap_map]
  cases m [] <;> rfl

theorem getLast?_toList (o : Option α) : o.toList.getLast? = o := by
  cases o <;> rfl

/-- There is one longest front with a value. -/
theorem longest_unique {u word : List Bool} (hw : word <+: bs) (hu : u <+: bs)
    (hv : (m word).isSome) (huv : (m u).isSome)
    (hlonger : ∀ w', w' <+: bs → word.length < w'.length → m w' = none)
    (hulonger : ∀ w', w' <+: bs → u.length < w'.length → m w' = none) : u = word := by
  rcases Nat.lt_trichotomy u.length word.length with hlt | heq | hlt
  · rw [hulonger word hw hlt] at hv
    cases hv
  · rw [List.prefix_iff_eq_take.mp hu, List.prefix_iff_eq_take.mp hw, heq]
  · rw [hlonger u hu hlt] at huv
    cases huv

/-- The last value is that of the longest front that has one. -/
theorem getLast?_covers_eq_some_iff (m : WordMap α) (bs : List Bool) (v : α) :
    (covers m bs).getLast? = some v ↔
      ∃ w, w <+: bs ∧ m w = some v ∧ ∀ w', w' <+: bs → w.length < w'.length → m w' = none := by
  induction bs generalizing m v with
  | nil =>
    have hone : covers m [] = (m []).toList := by
      unfold covers
      cases h : m [] <;> simp [h]
    rw [hone, getLast?_toList]
    constructor
    · intro h
      refine ⟨[], List.prefix_refl _, h, fun w' hw' hlt => ?_⟩
      rw [List.prefix_nil.mp hw'] at hlt
      exact absurd hlt (Nat.lt_irrefl _)
    · rintro ⟨w, hw, hv, -⟩
      rwa [List.prefix_nil.mp hw] at hv
  | cons b bs ih =>
    have hrest : (covers (fun w => m (b :: w)) bs).getLast? = none ↔
        ∀ w, w <+: bs → m (b :: w) = none := by
      rw [List.getLast?_eq_none_iff]
      unfold covers
      rw [List.filterMap_eq_nil_iff]
      exact forall_congr' fun w => by rw [List.mem_inits]
    rw [covers_cons, List.getLast?_append, getLast?_toList]
    cases hlast : (covers (fun w => m (b :: w)) bs).getLast? with
    | some v' =>
      obtain ⟨w, hw, hv, hlonger⟩ := (ih _ _).mp hlast
      have hfront : b :: w <+: b :: bs := List.cons_prefix_cons.mpr ⟨rfl, hw⟩
      have hlongest : ∀ w', w' <+: b :: bs → (b :: w).length < w'.length → m w' = none := by
        intro w' hw' hlt
        cases w' with
        | nil => exact absurd hlt (Nat.not_lt_zero _)
        | cons b' w' =>
          obtain ⟨rfl, hfront'⟩ := List.cons_prefix_cons.mp hw'
          exact hlonger w' hfront' (Nat.lt_of_succ_lt_succ hlt)
      rw [Option.some_or]
      constructor
      · rintro h
        cases h
        exact ⟨b :: w, hfront, hv, hlongest⟩
      · rintro ⟨u, hu, huv, hulonger⟩
        obtain rfl := longest_unique hfront hu (hv ▸ rfl) (huv ▸ rfl) hlongest hulonger
        exact hv.symm.trans huv
    | none =>
      have hnone := hrest.mp hlast
      rw [Option.none_or]
      constructor
      · intro h
        refine ⟨[], List.nil_prefix, h, fun w' hw' hlt => ?_⟩
        cases w' with
        | nil => exact absurd hlt (Nat.lt_irrefl _)
        | cons b' w' =>
          obtain ⟨rfl, hfront⟩ := List.cons_prefix_cons.mp hw'
          exact hnone w' hfront
      · rintro ⟨u, hu, huv, -⟩
        cases u with
        | nil => exact huv
        | cons b' u =>
          obtain ⟨rfl, hfront⟩ := List.cons_prefix_cons.mp hu
          rw [hnone u hfront] at huv
          cases huv

/-- To cut where there is a value, and only to drop another word: that is the same word. -/
theorem eq_of_cut_eq_drop {lost : Bool} {word word' : List Bool} (hsome : (m word).isSome)
    (h : cut lost word m = drop word' m) : word = word' := by
  by_contra hne
  have hword := congrFun h word
  unfold cut drop at hword
  rw [if_pos (Or.inl rfl), if_neg hne] at hword
  rw [← hword] at hsome
  cases hsome

/-- What is cut besides the word has no value. -/
theorem cut_eq_drop_iff (lost : Bool) (word : List Bool) (m : WordMap α) :
    cut lost word m = drop word m ↔
      lost = false ∨ ∀ bs, word ++ [true] <+: bs → m bs = none := by
  have hbelow {bs : List Bool} (hbs : word ++ [true] <+: bs) : bs ≠ word := by
    rintro rfl
    have hlength := hbs.length_le
    rw [List.length_append, List.length_singleton] at hlength
    omega
  constructor
  · intro h
    cases lost with
    | false => exact .inl rfl
    | true =>
      refine .inr fun bs hbs => ?_
      have hword := congrFun h bs
      unfold cut drop at hword
      rw [if_pos (Or.inr ⟨rfl, hbs⟩), if_neg (hbelow hbs)] at hword
      exact hword.symm
  · intro h
    funext bs
    unfold cut drop
    by_cases hbs : bs = word
    · rw [if_pos (.inl hbs), if_pos hbs]
    · rw [if_neg hbs]
      split
      · rename_i hlost
        obtain ⟨hfirst, hunder⟩ := hlost.resolve_left hbs
        rcases h with h | h
        · rw [h] at hfirst
          cases hfirst
        · exact (h bs hunder).symm
      · rfl

end Radix

end Zuckerserv
