import Mathlib.Tactic.Common

/-!
# Loops

Loops over an explicit state, and the rules that reason about them.

* `loopi` — `for(i = 0; i < n; i++)`.
* `loopirev` — `for(i = n-1; i >= 0; i--)`.
* `whileDo` — `while(cond)`, for a given number of rounds.
* `loopi_inv`, `loopirev_inv`, `whileDo_inv` — the invariant rules.
* `whileDo_succ` — one round more.
* `whileDo_congr` — two bodies that agree under the invariant.
* `not_whileDo` — with a measure below the number of rounds, `whileDo` ends
  because its condition fails.
-/

namespace Loop

variable {σ : Type*}

/-- `for(i = 0; i < n; i++) s = f i s;`. -/
def loopi : Nat → (Nat → σ → σ) → σ → σ
  | 0, _, s => s
  | n + 1, f, s => f n (loopi n f s)

/-- `for(i = n-1; i >= 0; i--) s = f i s;`. -/
def loopirev : Nat → (Nat → σ → σ) → σ → σ
  | 0, _, s => s
  | n + 1, f, s => loopirev n f (f n s)

/-- `while(cond s) s = f s;`, for at most `fuel` rounds. -/
def whileDo (cond : σ → Prop) [DecidablePred cond] (f : σ → σ) : Nat → σ → σ
  | 0, s => s
  | fuel + 1, s => if cond s then whileDo cond f fuel (f s) else s

/-- The invariant rule of `loopi`: the invariant may speak about the counter. -/
theorem loopi_inv {inv : Nat → σ → Prop} {n : Nat} {f : Nat → σ → σ} {s : σ} (h0 : inv 0 s)
    (hstep : ∀ i < n, ∀ s, inv i s → inv (i + 1) (f i s)) : inv n (loopi n f s) := by
  induction n with
  | zero => exact h0
  | succ n ih =>
    have hn := ih fun i hi => hstep i (Nat.lt_succ_of_lt hi)
    exact hstep n (Nat.lt_succ_self n) _ hn

/-- The invariant rule of `loopirev`. -/
theorem loopirev_inv {inv : Nat → σ → Prop} {n : Nat} {f : Nat → σ → σ} {s : σ} (hn : inv n s)
    (hstep : ∀ i < n, ∀ s, inv (i + 1) s → inv i (f i s)) : inv 0 (loopirev n f s) := by
  induction n generalizing s with
  | zero => exact hn
  | succ n ih =>
    have hnext := hstep n (Nat.lt_succ_self n) s hn
    exact ih hnext fun i hi => hstep i (Nat.lt_succ_of_lt hi)

section WhileDo

variable {cond : σ → Prop} [DecidablePred cond] {f : σ → σ} {inv : σ → Prop}

/-- The invariant rule of `whileDo`. -/
theorem whileDo_inv (hstep : ∀ s, inv s → cond s → inv (f s)) {s : σ} (h0 : inv s) (fuel : Nat) :
    inv (whileDo cond f fuel s) := by
  induction fuel generalizing s with
  | zero => exact h0
  | succ fuel ih =>
    rw [whileDo]
    split_ifs with h
    · exact ih (hstep s h0 h)
    · exact h0

/-- A loop whose measure goes down ends by itself when there are enough rounds. -/
theorem not_whileDo (hstep : ∀ s, inv s → cond s → inv (f s)) (μ : σ → Nat)
    (hpos : ∀ s, inv s → cond s → μ (f s) < μ s) {s : σ} (h0 : inv s) {fuel : Nat}
    (hfuel : μ s < fuel) : ¬ cond (whileDo cond f fuel s) := by
  induction fuel generalizing s with
  | zero => exact absurd hfuel (Nat.not_lt_zero _)
  | succ fuel ih =>
    rw [whileDo]
    split_ifs with h
    · have hlt := hpos s h0 h
      exact ih (hstep s h0 h) (by omega)
    · exact h

/-- The last round of `whileDo`. -/
theorem whileDo_succ (s : σ) (fuel : Nat) : whileDo cond f (fuel + 1) s =
    if cond (whileDo cond f fuel s) then f (whileDo cond f fuel s)
    else whileDo cond f fuel s := by
  induction fuel generalizing s with
  | zero => rfl
  | succ fuel ih =>
    rw [whileDo]
    by_cases h : cond s
    · rw [if_pos h, ih, whileDo, if_pos h]
    · have hstop : whileDo cond f (fuel + 1) s = s := by rw [whileDo, if_neg h]
      rw [if_neg h, hstop, if_neg h]

/-- Bodies that agree where the invariant holds make the same loop. -/
theorem whileDo_congr {g : σ → σ} (hstep : ∀ s, inv s → cond s → inv (f s))
    (heq : ∀ s, inv s → cond s → f s = g s) {s : σ} (h0 : inv s) (fuel : Nat) :
    whileDo cond f fuel s = whileDo cond g fuel s := by
  induction fuel generalizing s with
  | zero => rfl
  | succ fuel ih =>
    rw [whileDo, whileDo]
    split_ifs with h
    · rw [← heq s h0 h]
      exact ih (hstep s h0 h)
    · rfl

end WhileDo

end Loop
