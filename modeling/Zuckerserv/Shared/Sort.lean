import Zuckerserv.Lib.Cells

/-!
# Sorting

`insertionsort` and `quicksort` of `shared/tools.h`, over a range of memory. Every read and every
write is checked against the range of the call, and a loop that would not end in the rounds that it
is given has no result.

* `insertionsort`, `quicksort` — the code.
* `Parted` — the invariant of the partition; `Split` — the pivot is in its place.
* `insertionsort_spec`, `quicksort_spec` — the range is sorted, whatever it holds.
-/

namespace Zuckerserv

open Cells

namespace Tools

variable {α : Type} (less : α → α → Bool)

/-! ## The code -/

/-- `for(; j > start && fun(tmp, j[-1]); --j) *j = j[-1];`, from `j = start + k`: the memory, and
where `j` stops. -/
def sift (s e : ℤ) (tmp : α) : Nat → (ℤ → α) → Option ((ℤ → α) × ℤ)
  | 0, a => some (a, s)
  | k + 1, a => do
    let x ← read s e a (s + k)
    if less tmp x then
      let a ← write s e a (s + k + 1) x
      sift s e tmp k a
    else some (a, s + k + 1)

/-- One round of `insertionsort`. -/
def insert (s e i : ℤ) (a : ℤ → α) : Option (ℤ → α) := do
  let x ← read s e a i
  let y ← read s e a (i - 1)
  if less x y then
    let a ← write s e a i y
    let r ← sift less s e x (i - 1 - s).toNat a
    write s e r.1 r.2 x
  else some a

/-- The first `n` rounds of `insertionsort`. -/
def insertLoop (s e : ℤ) : Nat → (ℤ → α) → Option (ℤ → α)
  | 0, a => some a
  | n + 1, a => do
    let a ← insertLoop s e n a
    insert less s e (s + 1 + n) a

/-- `insertionsort(start, end, fun)`. -/
def insertionsort (s e : ℤ) (a : ℤ → α) : Option (ℤ → α) :=
  insertLoop less s e (e - (s + 1)).toNat a

/-- `swap(*i, *j)`. -/
def swap (s e : ℤ) (a : ℤ → α) (i j : ℤ) : Option (ℤ → α) := do
  let x ← read s e a i
  let y ← read s e a j
  let a ← write s e a i y
  write s e a j x

/-- The choice of the pivot among the elements at `start`, `mid` and `end[-1]`: the pivot, and the
memory, in which the cell at `mid` is free. -/
def median (s e mid : ℤ) (a : ℤ → α) : Option (α × (ℤ → α)) := do
  let x ← read s e a s
  let y ← read s e a mid
  let z ← read s e a (e - 1)
  if less x y then
    if less z x then
      let a ← write s e a s z
      let a ← write s e a (e - 1) y
      some (x, a)
    else if less z y then
      let a ← write s e a (e - 1) y
      some (z, a)
    else some (y, a)
  else if less x z then
    let a ← write s e a s y
    some (x, a)
  else if less y z then
    let a ← write s e a (e - 1) x
    let a ← write s e a s y
    some (z, a)
  else
    let a ← swap s e a s (e - 1)
    some (y, a)

/-- `while(fun(*i, pivot)) if(++i >= j) goto partitioned;`: whether it jumps, and `i`. -/
def scanUp (s e : ℤ) (a : ℤ → α) (pivot : α) (j : ℤ) : Nat → ℤ → Option (Bool × ℤ)
  | 0, _ => none
  | rounds + 1, i => do
    let x ← read s e a i
    if less x pivot then
      if i + 1 ≥ j then some (true, i + 1) else scanUp s e a pivot j rounds (i + 1)
    else some (false, i)

/-- `while(fun(pivot, *--j)) if(i >= j) goto partitioned;`: whether it jumps, and `j`. -/
def scanDown (s e : ℤ) (a : ℤ → α) (pivot : α) (i : ℤ) : Nat → ℤ → Option (Bool × ℤ)
  | 0, _ => none
  | rounds + 1, j => do
    let x ← read s e a (j - 1)
    if less pivot x then
      if i ≥ j - 1 then some (true, j - 1) else scanDown s e a pivot i rounds (j - 1)
    else some (false, j - 1)

/-- The `do` loop, up to `partitioned:`: `i`, and the memory. -/
def partitionLoop (s e : ℤ) (pivot : α) : Nat → (ℤ → α) → ℤ → ℤ → Option (ℤ × (ℤ → α))
  | 0, _, _, _ => none
  | rounds + 1, a, i, j => do
    let up ← scanUp less s e a pivot j (j - i).toNat i
    if up.1 then some (up.2, a)
    else
      let down ← scanDown less s e a pivot up.2 (j - up.2).toNat j
      if down.1 then some (up.2, a)
      else
        let a ← swap s e a up.2 down.2
        if up.2 + 1 < down.2 then partitionLoop s e pivot rounds a (up.2 + 1) down.2
        else some (up.2 + 1, a)

/-- One round of `quicksort`, up to the calls: the place of the pivot, and the memory. -/
def divide (s e : ℤ) (a : ℤ → α) : Option (ℤ × (ℤ → α)) := do
  let mid := s + (e - s) / 2
  let r ← median less s e mid a
  let last ← read s e r.2 (e - 2)
  let a ← write s e r.2 mid last
  let p ← partitionLoop less s e r.1 (e - s).toNat a (s + 1) (e - 2)
  let x ← read s e p.2 p.1
  let a ← write s e p.2 (e - 2) x
  let a ← write s e a p.1 r.1
  some (p.1, a)

/-- `quicksort(start, end, fun)`, for calls of some depth. The round that follows a call is one on
the other part of the range. -/
def quicksortLoop : Nat → ℤ → ℤ → (ℤ → α) → Option (ℤ → α)
  | 0, _, _, _ => none
  | depth + 1, s, e, a =>
    if e - s > 10 then do
      let r ← divide less s e a
      if r.1 - s < e - (r.1 + 1) then
        let a ← quicksortLoop depth s r.1 r.2
        quicksortLoop depth (r.1 + 1) e a
      else
        let a ← quicksortLoop depth (r.1 + 1) e r.2
        quicksortLoop depth s r.1 a
    else insertionsort less s e a

/-- `quicksort(start, end, fun)`. -/
def quicksort (s e : ℤ) (a : ℤ → α) : Option (ℤ → α) :=
  quicksortLoop less ((e - s).toNat + 1) s e a

/-! ## The order -/

section Order

variable {less} [IsStrictWeakOrder α fun x y => less x y = true] {x y z : α}

theorem less_asymm (h : less x y) : ¬ less y x :=
  asymm_of (fun x y => less x y = true) h

/-- Not to be less is transitive. -/
theorem not_less_trans (hxy : ¬ less y x) (hyz : ¬ less z y) : ¬ less z x := by
  intro hzx
  have htrans {u v w : α} (huv : less u v) (hvw : less v w) : less u w :=
    trans_of (fun x y => less x y = true) huv hvw
  have h1 : ¬ less x y := fun h => hyz (htrans hzx h)
  have h2 : ¬ less y z := fun h => hxy (htrans h hzx)
  have hincomp : ¬ less x z ∧ ¬ less z x :=
    @IsStrictWeakOrder.incomp_trans α (fun x y => less x y = true) _ x y z ⟨h1, hxy⟩ ⟨h2, hyz⟩
  exact hincomp.2 hzx

end Order

/-! ## Insertion sort -/

/-- What holds in the loop of `sift`: the value of the cell at `i` is kept aside, and the cells
above `j` have moved up by one, being greater. -/
structure SiftInv (s e i : ℤ) (tmp : α) (a b : ℤ → α) (j : ℤ) : Prop where
  hole : Hole s e a b j tmp
  below : ∀ m < j, b m = a m
  moved : ∀ m, j < m → m ≤ i → b m = a (m - 1) ∧ less tmp (a (m - 1))

section Insertion

variable {less}

theorem sift_spec {s e i : ℤ} {tmp : α} {a b : ℤ → α} {k : Nat} (hie : i < e) (hk : s + k < i)
    (h : SiftInv less s e i tmp a b (s + k)) :
    ∃ c j, sift less s e tmp k b = some (c, j) ∧ j < i ∧ SiftInv less s e i tmp a c j ∧
      (j = s ∨ ¬ less tmp (a (j - 1))) := by
  induction k generalizing b with
  | zero =>
    rw [Nat.cast_zero, Int.add_zero] at h hk
    exact ⟨b, s, rfl, hk, h, Or.inl rfl⟩
  | succ k ih =>
    rw [Nat.cast_succ, ← Int.add_assoc] at h hk
    have hread := read_eq (a := b) (show s ≤ s + k by omega) (show s + k < e by omega)
    have hvalue : b (s + k) = a (s + k) := h.below _ (by omega)
    have hplace : s + (k : ℤ) + 1 - 1 = s + k := by omega
    rw [sift, hread]
    dsimp only [Option.bind_eq_bind, Option.bind_some]
    split_ifs with hless
    · rw [write_eq (by omega) (by omega)]
      dsimp only [Option.bind_some]
      refine ih (by omega) ⟨h.hole.move (by omega) (by omega), fun m hm => ?_, fun m hm hmi => ?_⟩
      · rw [Function.update_of_ne (by omega)]
        exact h.below m (by omega)
      · rcases eq_or_ne m (s + k + 1) with rfl | hne
        · rw [Function.update_self, hplace, ← hvalue]
          exact ⟨rfl, hless⟩
        · rw [Function.update_of_ne hne]
          exact h.moved m (by omega) hmi
    · refine ⟨b, s + k + 1, rfl, hk, h, Or.inr ?_⟩
      rw [hplace, ← hvalue]
      exact hless

variable [IsStrictWeakOrder α fun x y => less x y = true]

/-- Putting the value back makes one more cell sorted. -/
theorem SiftInv.sorted {s e i : ℤ} {a b : ℤ → α} {j : ℤ} (h : SiftInv less s e i (a i) a b j)
    (hji : j < i) (hstop : j = s ∨ ¬ less (a i) (a (j - 1))) (hsorted : SortedOn less a s i) :
    SortedOn less (Function.update b j (a i)) s (i + 1) := by
  have hhole := h.hole.le
  have hbelow (m : ℤ) (hm : m < j) : Function.update b j (a i) m = a m := by
    rw [Function.update_of_ne (by omega)]
    exact h.below m hm
  have habove (m : ℤ) (hm : j < m) (hmi : m ≤ i) :
      Function.update b j (a i) m = a (m - 1) ∧ less (a i) (a (m - 1)) := by
    rw [Function.update_of_ne (by omega)]
    exact h.moved m hm hmi
  intro p q hsp hpq hqi
  rcases lt_trichotomy q j with hq | rfl | hq
  · rw [hbelow q hq, hbelow p (by omega)]
    exact hsorted p q hsp hpq (by omega)
  · -- the value itself is not less than what is below it
    have htop : ¬ less (a i) (a (q - 1)) := hstop.resolve_left (by omega)
    rw [Function.update_self, hbelow p hpq]
    rcases eq_or_ne p (q - 1) with rfl | hne
    · exact htop
    · exact not_less_trans (hsorted p (q - 1) hsp (by omega) (by omega)) htop
  · have hqv := habove q hq (by omega)
    rw [hqv.1]
    rcases lt_trichotomy p j with hp | rfl | hp
    · rw [hbelow p hp]
      exact hsorted p (q - 1) hsp (by omega) (by omega)
    · rw [Function.update_self]
      exact less_asymm hqv.2
    · rw [(habove p hp (by omega)).1]
      exact hsorted (p - 1) (q - 1) (by omega) (by omega) (by omega)

theorem insert_spec {s e i : ℤ} {a : ℤ → α} (hsi : s < i) (hie : i < e)
    (hsorted : SortedOn less a s i) :
    ∃ b, insert less s e i a = some b ∧ Permutes s e a b ∧ SortedOn less b s (i + 1) := by
  rw [insert, read_eq hsi.le hie, read_eq (by omega) (by omega)]
  dsimp only [Option.bind_eq_bind, Option.bind_some]
  split_ifs with hless
  · have hk : s + ((i - 1 - s).toNat : ℤ) = i - 1 := by omega
    have hhole := ((Permutes.refl s e a).hole hsi.le hie).move (j := i - 1) (by omega) (by omega)
    have h0 : SiftInv less s e i (a i) a (Function.update a i (a (i - 1)))
        (s + ((i - 1 - s).toNat : ℤ)) := by
      rw [hk]
      refine ⟨hhole, fun m hm => Function.update_of_ne (by omega) _ _, fun m hm hmi => ?_⟩
      obtain rfl : m = i := by omega
      rw [Function.update_self]
      exact ⟨rfl, hless⟩
    obtain ⟨b, j, hsift, hji, hinv, hstop⟩ := sift_spec hie (by omega) h0
    rw [write_eq hsi.le hie]
    dsimp only [Option.bind_some]
    rw [hsift]
    dsimp only [Option.bind_some]
    rw [write_eq hinv.hole.le hinv.hole.lt]
    exact ⟨_, rfl, hinv.hole.fill, hinv.sorted hji hstop hsorted⟩
  · refine ⟨a, rfl, Permutes.refl s e a, fun p q hsp hpq hqi => ?_⟩
    rcases lt_or_eq_of_le (Int.le_of_lt_add_one hqi) with hq | rfl
    · exact hsorted p q hsp hpq hq
    · rcases eq_or_ne p (q - 1) with rfl | hne
      · exact hless
      · exact not_less_trans (hsorted p (q - 1) hsp (by omega) (by omega)) hless

variable (less) in
theorem insertLoop_spec {s e : ℤ} (a : ℤ → α) {n : Nat} (hn : s + n < e) :
    ∃ b, insertLoop less s e n a = some b ∧ Permutes s e a b ∧
      SortedOn less b s (s + 1 + n) := by
  induction n with
  | zero =>
    refine ⟨a, rfl, Permutes.refl s e a, fun p q hp hpq hq => ?_⟩
    omega
  | succ n ih =>
    obtain ⟨b, hloop, hperm, hsorted⟩ := ih (by omega)
    obtain ⟨c, hinsert, hperm', hsorted'⟩ := insert_spec (by omega) (by omega) hsorted (e := e)
    have hplace : s + 1 + ((n + 1 : Nat) : ℤ) = s + 1 + n + 1 := by omega
    rw [insertLoop, hloop, hplace]
    exact ⟨c, hinsert, hperm.trans hperm', hsorted'⟩

/-- Insertion sort sorts a range. -/
theorem insertionsort_spec (s e : ℤ) (a : ℤ → α) :
    ∃ b, insertionsort less s e a = some b ∧ Permutes s e a b ∧ SortedOn less b s e := by
  rcases le_or_gt e s with h | h
  · have hnone : (e - (s + 1)).toNat = 0 := by omega
    rw [insertionsort, hnone]
    refine ⟨a, rfl, Permutes.refl s e a, fun p q hp hpq hq => ?_⟩
    omega
  · obtain ⟨b, hloop, hperm, hsorted⟩ := insertLoop_spec less a
      (show s + ((e - (s + 1)).toNat : ℤ) < e by omega)
    have hend : s + 1 + ((e - (s + 1)).toNat : ℤ) = e := by omega
    rw [hend] at hsorted
    exact ⟨b, hloop, hperm, hsorted⟩

end Insertion

/-! ## The pivot -/

section Pivot

variable {less}

theorem swap_spec {s e i j : ℤ} (a : ℤ → α) (hi : s ≤ i ∧ i < e) (hj : s ≤ j ∧ j < e) :
    swap s e a i j = some (Function.update (Function.update a i (a j)) j (a i)) ∧
      ∀ l r, l ≤ i → i < r → l ≤ j → j < r →
        Permutes l r a (Function.update (Function.update a i (a j)) j (a i)) := by
  refine ⟨?_, fun l r hsi hie hsj hje => (((Permutes.refl _ _ a).hole hsi hie).move hsj hje).fill⟩
  rw [swap, read_eq hi.1 hi.2, read_eq hj.1 hj.2]
  dsimp only [Option.bind_eq_bind, Option.bind_some]
  rw [write_eq hi.1 hi.2]
  exact write_eq hj.1 hj.2 _ _

variable [IsStrictWeakOrder α fun x y => less x y = true]

variable (less) in
/-- The pivot is between the elements that are put at the ends of the range. -/
theorem median_spec {s e mid : ℤ} (a : ℤ → α) (hs : s < mid) (he : mid < e - 1) :
    ∃ pivot b, median less s e mid a = some (pivot, b) ∧ Hole s e a b mid pivot ∧
      ¬ less pivot (b s) ∧ ¬ less (b (e - 1)) pivot := by
  have hrefl := Permutes.refl s e a
  have hstart := hrefl.hole (i := s) le_rfl (by omega)
  have hend := hrefl.hole (i := e - 1) (by omega) (by omega)
  have hmid := hrefl.hole (i := mid) (by omega) (by omega)
  rw [median, read_eq le_rfl (by omega), read_eq (by omega) (by omega),
    read_eq (by omega) (by omega)]
  dsimp only [Option.bind_eq_bind, Option.bind_some]
  split_ifs with hxy hzx hzy hxz hyz
  · have hmove := (hstart.move (j := e - 1) (by omega) (by omega)).move (j := mid) (by omega)
      (by omega)
    rw [Function.update_of_ne hs.ne'] at hmove
    rw [write_eq le_rfl (by omega)]
    dsimp only [Option.bind_some]
    rw [write_eq (by omega) (by omega)]
    refine ⟨_, _, rfl, hmove, ?_, ?_⟩
    · rw [Function.update_of_ne (by omega), Function.update_self]
      exact less_asymm hzx
    · rw [Function.update_self]
      exact less_asymm hxy
  · rw [write_eq (by omega) (by omega)]
    refine ⟨_, _, rfl, hend.move (j := mid) (by omega) (by omega), ?_, ?_⟩
    · rw [Function.update_of_ne (by omega)]
      exact hzx
    · rw [Function.update_self]
      exact less_asymm hzy
  · exact ⟨_, _, rfl, hmid, less_asymm hxy, hzy⟩
  · rw [write_eq le_rfl (by omega)]
    refine ⟨_, _, rfl, hstart.move (j := mid) (by omega) (by omega), ?_, ?_⟩
    · rw [Function.update_self]
      exact hxy
    · rw [Function.update_of_ne (by omega)]
      exact less_asymm hxz
  · have hmove := (hend.move (j := s) (by omega) (by omega)).move (j := mid) (by omega) (by omega)
    rw [Function.update_of_ne he.ne] at hmove
    rw [write_eq (by omega) (by omega)]
    dsimp only [Option.bind_some]
    rw [write_eq le_rfl (by omega)]
    refine ⟨_, _, rfl, hmove, ?_, ?_⟩
    · rw [Function.update_self]
      exact less_asymm hyz
    · rw [Function.update_of_ne (by omega), Function.update_self]
      exact hxz
  · obtain ⟨hswap, hperm⟩ := swap_spec (i := s) (j := e - 1) a ⟨le_rfl, by omega⟩
      (show s ≤ e - 1 ∧ e - 1 < e by omega)
    have hhole := (hperm s e le_rfl (by omega) (by omega) (by omega)).hole
      hs.le (i := mid) (by omega)
    rw [Function.update_of_ne he.ne, Function.update_of_ne hs.ne'] at hhole
    rw [hswap]
    refine ⟨_, _, rfl, hhole, ?_, ?_⟩
    · rw [Function.update_of_ne (by omega), Function.update_self]
      exact hyz
    · rw [Function.update_self]
      exact hxy

end Pivot

/-! ## The partition -/

/-- What holds in the loop: what is below `i` is not greater than the pivot, and what is from `j` on
is not less. -/
structure Parted (lo hi : ℤ) (pivot : α) (a b : ℤ → α) (i j : ℤ) : Prop where
  perm : Permutes lo hi a b
  le : lo ≤ i
  ge : j ≤ hi
  low : ∀ m, lo ≤ m → m < i → ¬ less pivot (b m)
  high : ∀ m, j ≤ m → m < hi → ¬ less (b m) pivot

section Partition

variable {less} {s e : ℤ} {pivot : α}

variable (less pivot) in
theorem scanUp_spec (a : ℤ → α) {i j : ℤ} {rounds : Nat} (hrounds : j ≤ i + rounds) (hij : i < j)
    (hs : s ≤ i) (he : j ≤ e) :
    ∃ k, i ≤ k ∧ k ≤ j ∧ (∀ m, i ≤ m → m < k → less (a m) pivot) ∧
      (scanUp less s e a pivot j rounds i = some (true, k) ∧ k = j ∨
        scanUp less s e a pivot j rounds i = some (false, k) ∧ k < j ∧ ¬ less (a k) pivot) := by
  induction rounds generalizing i with
  | zero => omega
  | succ rounds ih =>
    rw [scanUp, read_eq hs (by omega)]
    dsimp only [Option.bind_eq_bind, Option.bind_some]
    split_ifs with hless hend
    · refine ⟨i + 1, by omega, by omega, fun m him hmi => ?_, Or.inl ⟨rfl, by omega⟩⟩
      obtain rfl : m = i := by omega
      exact hless
    · obtain ⟨k, hik, hkj, hscanned, hresult⟩ := ih (i := i + 1) (by omega) (by omega) (by omega)
      refine ⟨k, by omega, hkj, fun m him hmk => ?_, hresult⟩
      rcases eq_or_lt_of_le him with rfl | him
      · exact hless
      · exact hscanned m him hmk
    · exact ⟨i, le_rfl, hij.le, fun m him hmi => by omega, Or.inr ⟨rfl, hij, hless⟩⟩

variable (less pivot) in
theorem scanDown_spec (a : ℤ → α) {i j : ℤ} {rounds : Nat} (hrounds : j ≤ i + rounds)
    (hij : i < j) (hs : s ≤ i) (he : j ≤ e) :
    ∃ k, i ≤ k ∧ k < j ∧ (∀ m, k < m → m < j → less pivot (a m)) ∧
      (scanDown less s e a pivot i rounds j = some (true, k) ∧ k = i ∧ less pivot (a k) ∨
        scanDown less s e a pivot i rounds j = some (false, k) ∧ ¬ less pivot (a k)) := by
  induction rounds generalizing j with
  | zero => omega
  | succ rounds ih =>
    rw [scanDown, read_eq (by omega) (by omega)]
    dsimp only [Option.bind_eq_bind, Option.bind_some]
    split_ifs with hless hend
    · exact ⟨j - 1, by omega, by omega, fun m hkm hmj => by omega,
        Or.inl ⟨rfl, by omega, hless⟩⟩
    · obtain ⟨k, hik, hkj, hscanned, hresult⟩ := ih (j := j - 1) (by omega) (by omega) (by omega)
      refine ⟨k, hik, by omega, fun m hkm hmj => ?_, hresult⟩
      rcases eq_or_ne m (j - 1) with rfl | hne
      · exact hless
      · exact hscanned m hkm (by omega)
    · exact ⟨j - 1, by omega, by omega, fun m hkm hmj => by omega, Or.inr ⟨rfl, hless⟩⟩

variable [IsStrictWeakOrder α fun x y => less x y = true]

/-- Both scans, up to where they stop. -/
theorem Parted.scanned {lo hi : ℤ} {a b : ℤ → α} {i j k l : ℤ}
    (h : Parted less lo hi pivot a b i j) (hik : i ≤ k) (hlj : l ≤ j)
    (hup : ∀ m, i ≤ m → m < k → less (b m) pivot) (hdown : ∀ m, l ≤ m → m < j → less pivot (b m)) :
    Parted less lo hi pivot a b k l := by
  have hge := h.ge
  refine ⟨h.perm, h.le.trans hik, hlj.trans hge, fun m hlo hmk => ?_, fun m hlm hhi => ?_⟩
  · rcases lt_or_ge m i with hmi | hmi
    · exact h.low m hlo hmi
    · exact less_asymm (hup m hmi hmk)
  · rcases lt_or_ge m j with hmj | hmj
    · exact less_asymm (hdown m hlm hmj)
    · exact h.high m hmj hhi

omit [IsStrictWeakOrder α fun x y => less x y = true] in
/-- Exchanging the elements at which the scans stop. -/
theorem Parted.swapped {lo hi : ℤ} {a b : ℤ → α} {i j : ℤ}
    (h : Parted less lo hi pivot a b i (j + 1)) (hij : i ≤ j) (hbi : ¬ less (b i) pivot)
    (hbj : ¬ less pivot (b j)) :
    Parted less lo hi pivot a (Function.update (Function.update b i (b j)) j (b i)) (i + 1)
      (max j (i + 1)) := by
  have hle := h.le
  have hge := h.ge
  have hperm := (((Permutes.refl lo hi b).hole hle (by omega)).move (j := j) (by omega)
    (by omega)).fill
  refine ⟨h.perm.trans hperm, by omega, by omega, fun m hlo hmi => ?_, fun m hjm hhi => ?_⟩
  · rcases eq_or_ne m j with rfl | hmj
    · obtain rfl : m = i := by omega
      rw [Function.update_self]
      exact hbj
    · rw [Function.update_of_ne hmj]
      rcases eq_or_ne m i with rfl | hmi'
      · rw [Function.update_self]
        exact hbj
      · rw [Function.update_of_ne hmi']
        exact h.low m hlo (by omega)
  · rcases eq_or_ne m j with rfl | hmj
    · rw [Function.update_self]
      exact hbi
    · rw [Function.update_of_ne hmj, Function.update_of_ne (by omega)]
      exact h.high m (by omega) hhi

theorem partitionLoop_spec {lo hi : ℤ} {a b : ℤ → α} {i j : ℤ} {rounds : Nat}
    (h : Parted less lo hi pivot a b i j) (hij : i < j) (hrounds : j ≤ i + rounds) (hs : s ≤ lo)
    (he : hi ≤ e) :
    ∃ k c, partitionLoop less s e pivot rounds b i j = some (k, c) ∧
      Parted less lo hi pivot a c k k := by
  induction rounds generalizing b i j with
  | zero => omega
  | succ rounds ih =>
    have hle := h.le
    have hge := h.ge
    have hnone (m : ℤ) (hjm : j ≤ m) (hmj : m < j) : less pivot (b m) := by omega
    rw [partitionLoop]
    obtain ⟨k, hik, hkj, hup, ⟨hscan, hk⟩ | ⟨hscan, hklt, hkp⟩⟩ :=
      scanUp_spec less pivot b (show j ≤ i + ((j - i).toNat : ℤ) by omega) hij
        (show s ≤ i by omega) (show j ≤ e by omega)
    · rw [hscan]
      refine ⟨k, b, rfl, ?_⟩
      rw [hk] at hup ⊢
      exact h.scanned hij.le le_rfl hup hnone
    · rw [hscan]
      dsimp only [Option.bind_eq_bind, Option.bind_some]
      rw [if_neg Bool.false_ne_true]
      obtain ⟨l, hkl, hlj, hdown, ⟨hscan', hl, hlp⟩ | ⟨hscan', hlp⟩⟩ :=
        scanDown_spec less pivot b (show j ≤ k + ((j - k).toNat : ℤ) by omega) hklt
          (show s ≤ k by omega) (show j ≤ e by omega)
      · rw [hscan']
        refine ⟨k, b, rfl, h.scanned hik hkj hup fun m hkm hmj => ?_⟩
        rcases eq_or_lt_of_le hkm with rfl | hkm
        · rw [hl] at hlp
          exact hlp
        · exact hdown m (by omega) hmj
      · have hparted := (h.scanned (k := k) (l := l + 1) hik (by omega) hup
          fun m hlm hmj => hdown m (by omega) hmj).swapped hkl hkp hlp
        rw [hscan']
        dsimp only [Option.bind_some]
        rw [if_neg Bool.false_ne_true, (swap_spec b ⟨by omega, by omega⟩ ⟨by omega, by omega⟩).1]
        dsimp only [Option.bind_some]
        split_ifs with hnext
        · rw [max_eq_left hnext.le] at hparted
          exact ih hparted hnext (by omega)
        · rw [max_eq_right (by omega)] at hparted
          exact ⟨_, _, rfl, hparted⟩

end Partition

/-! ## Quicksort -/

/-- The element at `i` is in its place. -/
structure Split (s e i : ℤ) (a : ℤ → α) : Prop where
  low : ∀ m, s ≤ m → m < i → ¬ less (a i) (a m)
  high : ∀ m, i + 1 ≤ m → m < e → ¬ less (a m) (a i)

section Quicksort

variable {less} {s e i : ℤ} {a b : ℤ → α}

theorem Split.left (h : Split less s e i a) (hp : Permutes s i a b) : Split less s e i b := by
  have hi : b i = a i := hp.outside i (Or.inr le_rfl)
  refine ⟨?_, fun m him hme => ?_⟩
  · rw [hi]
    exact hp.forall_range (P := fun x => ¬ less (a i) x) h.low
  · rw [hi, hp.outside m (by omega)]
    exact h.high m him hme

theorem Split.right (h : Split less s e i a) (hp : Permutes (i + 1) e a b) :
    Split less s e i b := by
  have hi : b i = a i := hp.outside i (by omega)
  refine ⟨fun m hsm hmi => ?_, ?_⟩
  · rw [hi, hp.outside m (by omega)]
    exact h.low m hsm hmi
  · rw [hi]
    exact hp.forall_range (P := fun x => ¬ less x (a i)) h.high

variable [IsStrictWeakOrder α fun x y => less x y = true]

theorem Split.sorted (h : Split less s e i a) (hleft : SortedOn less a s i)
    (hright : SortedOn less a (i + 1) e) : SortedOn less a s e := by
  intro p q hsp hpq hqe
  rcases lt_trichotomy q i with hqi | rfl | hiq
  · exact hleft p q hsp hpq hqi
  · exact h.low p hsp hpq
  · rcases lt_trichotomy p i with hpi | rfl | hip
    · exact not_less_trans (h.low p hsp hpi) (h.high q hiq hqe)
    · exact h.high q hiq hqe
    · exact hright p q hip hpq hqe

variable (less) in
/-- One round puts an element into its place. -/
theorem divide_spec (a : ℤ → α) (hlong : e - s > 10) :
    ∃ i b, divide less s e a = some (i, b) ∧ s < i ∧ i < e - 1 ∧ Permutes s e a b ∧
      Split less s e i b := by
  obtain ⟨pivot, b, hmedian, hhole, hstart, hend⟩ := median_spec less a
    (show s < s + (e - s) / 2 by omega) (show s + (e - s) / 2 < e - 1 by omega)
  have hlast := hhole.move (j := e - 2) (by omega) (by omega)
  rw [divide]
  dsimp only [Option.bind_eq_bind]
  rw [hmedian]
  dsimp only [Option.bind_some]
  rw [read_eq (by omega) (by omega)]
  dsimp only [Option.bind_some]
  rw [write_eq hhole.le hhole.lt]
  dsimp only [Option.bind_some]
  have hs1 : Function.update b (s + (e - s) / 2) (b (e - 2)) s = b s :=
    Function.update_of_ne (by omega) _ _
  have he1 : Function.update b (s + (e - s) / 2) (b (e - 2)) (e - 1) = b (e - 1) :=
    Function.update_of_ne (by omega) _ _
  rw [← hs1] at hstart
  rw [← he1] at hend
  generalize Function.update b (s + (e - s) / 2) (b (e - 2)) = c at *
  have h0 : Parted less (s + 1) (e - 2) pivot c c (s + 1) (e - 2) :=
    ⟨Permutes.refl _ _ c, le_rfl, le_rfl, fun m h1 h2 => by omega, fun m h1 h2 => by omega⟩
  obtain ⟨i, d, hloop, hparted⟩ := partitionLoop_spec (s := s) (e := e) h0 (by omega)
    (show e - 2 ≤ s + 1 + ((e - s).toNat : ℤ) by omega) (by omega) (by omega)
  have hsi := hparted.le
  have hie := hparted.ge
  have hplaced := (hlast.permute hparted.perm (by omega) (by omega) (by omega)
    (Or.inr le_rfl)).move (j := i) (by omega) (by omega)
  rw [hloop]
  dsimp only [Option.bind_some]
  rw [read_eq (by omega) (by omega)]
  dsimp only [Option.bind_some]
  rw [write_eq (by omega) (by omega)]
  dsimp only [Option.bind_some]
  rw [write_eq (by omega) (by omega)]
  refine ⟨i, _, rfl, by omega, by omega, hplaced.fill, fun m hsm hmi => ?_, fun m him hme => ?_⟩
  · rw [Function.update_self, Function.update_of_ne (by omega), Function.update_of_ne (by omega)]
    rcases eq_or_lt_of_le hsm with rfl | hsm
    · rw [hparted.perm.outside s (by omega)]
      exact hstart
    · exact hparted.low m hsm hmi
  · rw [Function.update_self, Function.update_of_ne (by omega)]
    rcases eq_or_ne m (e - 2) with rfl | hme2
    · rw [Function.update_self]
      exact hparted.high i le_rfl him
    · rw [Function.update_of_ne hme2]
      rcases eq_or_ne m (e - 1) with rfl | hme1
      · rw [hparted.perm.outside (e - 1) (by omega)]
        exact hend
      · exact hparted.high m (by omega) (by omega)

theorem quicksortLoop_spec {depth : Nat} (hdepth : e - s < depth) (hpos : depth ≠ 0)
    (a : ℤ → α) :
    ∃ b, quicksortLoop less depth s e a = some b ∧ Permutes s e a b ∧ SortedOn less b s e := by
  induction depth generalizing s e a with
  | zero => exact absurd rfl hpos
  | succ depth ih =>
    rw [quicksortLoop]
    split_ifs with hlong
    · obtain ⟨i, b, hdivide, hsi, hie, hperm, hsplit⟩ := divide_spec less a hlong
      rw [hdivide]
      dsimp only [Option.bind_eq_bind, Option.bind_some]
      split_ifs
      · -- the left part is sorted in the call, the right one in the rounds behind it
        obtain ⟨c, hc, hcp, hcs⟩ := ih (s := s) (e := i) (by omega) (by omega) b
        obtain ⟨d, hd, hdp, hds⟩ := ih (s := i + 1) (e := e) (by omega) (by omega) c
        rw [hc]
        refine ⟨d, hd, ?_, ((hsplit.left hcp).right hdp).sorted
          (hcs.congr fun k _ hk => hdp.outside k (by omega)) hds⟩
        exact hperm.trans ((hcp.mono le_rfl hsi.le (by omega)).trans
          (hdp.mono (by omega) (by omega) le_rfl))
      · obtain ⟨c, hc, hcp, hcs⟩ := ih (s := i + 1) (e := e) (by omega) (by omega) b
        obtain ⟨d, hd, hdp, hds⟩ := ih (s := s) (e := i) (by omega) (by omega) c
        rw [hc]
        refine ⟨d, hd, ?_, ((hsplit.right hcp).left hdp).sorted hds
          (hcs.congr fun k hk _ => hdp.outside k (by omega))⟩
        exact hperm.trans ((hcp.mono (by omega) (by omega) le_rfl).trans
          (hdp.mono le_rfl hsi.le (by omega)))
    · exact insertionsort_spec s e a

/-- **Quicksort** ends, accesses the cells of the range only, and leaves the elements of the range
there in an order in which none is less than one before it. -/
theorem quicksort_spec (s e : ℤ) (a : ℤ → α) :
    ∃ b, quicksort less s e a = some b ∧ Permutes s e a b ∧ SortedOn less b s e :=
  quicksortLoop_spec (by omega) (Nat.succ_ne_zero _) a

end Quicksort

/-- Twenty numbers in descending order: more than the insertion sort is given at once. -/
theorem quicksort_spec_descending :
    ∃ b, quicksort (fun x y : Nat => decide (x < y)) 0 20 (fun i => (20 - i).toNat) = some b ∧
      Permutes 0 20 (fun i => (20 - i).toNat) b ∧
        SortedOn (fun x y : Nat => decide (x < y)) b 0 20 := by
  have horder : IsStrictWeakOrder Nat fun x y => decide (x < y) = true :=
    { irrefl := fun x => by simp
      trans := fun x y z => by simpa using Nat.lt_trans
      incomp_trans := fun x y z => by simp only [decide_eq_true_eq]; omega }
  exact quicksort_spec 0 20 _

end Tools

end Zuckerserv
