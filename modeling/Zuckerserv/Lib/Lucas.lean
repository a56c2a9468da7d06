import Mathlib.NumberTheory.LucasPrimality
import Mathlib.Data.List.Prime

/-!
# Lucas's primality test

`prime_of_lucas` — the test with the prime factors of `p - 1` given as a list, the
form in which a chain of certificates is written down.
-/

namespace Lucas

/-- `p` is prime when `a` has order `p - 1`, the product of the primes `fs`. -/
theorem prime_of_lucas {p : Nat} (a : ZMod p) {fs : List Nat} (hprod : fs.prod = p - 1)
    (hfs : ∀ q ∈ fs, q.Prime) (hone : a ^ (p - 1) = 1)
    (hne : ∀ q ∈ fs, a ^ ((p - 1) / q) ≠ 1) : p.Prime := by
  refine lucas_primality p a hone fun q hq hdvd => ?_
  obtain ⟨r, hr, hqr⟩ := (Nat.Prime.prime hq).dvd_prod_iff.mp (hprod ▸ hdvd)
  rw [(Nat.prime_dvd_prime_iff_eq hq (hfs r hr)).mp hqr]
  exact hne r hr

end Lucas
