import Mathlib.AlgebraicGeometry.EllipticCurve.Affine.Point
import Mathlib.Data.Nat.Size
import Mathlib.Tactic.FieldSimp
import Mathlib.Tactic.LinearCombination

/-!
# Points of the curve

The points of the curve `y² = x³ - 3x + B` in Jacobian coordinates (`struct ecjacobian`), over a
field with exact operations.

* `mul2`, `add`, `mul`, `normalize` — the operations of the code.
* `Stands` — the coordinates stand for a point of the curve.
* `Stands.mul2`, `Stands.add`, `Stands.mul` — the operations are those of the group of the curve.
* `Stands.normalize` — the coordinates of a point, when they are normalized.
-/

namespace Zuckerserv

/-- `struct ecjacobian`. -/
@[ext]
structure Ecjacobian (F : Type) where
  x : F
  y : F
  z : F

namespace Ecjacobian

variable {F : Type} [Field F] [DecidableEq F]

/-! ## The code -/

/-- `ecjacobian::origin`. -/
def origin : Ecjacobian F := ⟨1, 1, 0⟩

/-- `void mul2()`. -/
def mul2 (p : Ecjacobian F) : Ecjacobian F :=
  if p.z = 0 then p
  else if p.y = 0 then origin
  else
    let c := p.z * p.z
    let d := p.x - c
    let c := c + p.x
    let d := d * c
    let c := d + d + d
    let z := p.z * p.y
    let z := z + z
    let a := p.y * p.y
    let b := a + a
    let d := (p.x + p.x) * b
    let x := c * c - d - d
    let a := b * b
    let a := a + a
    ⟨x, (d - x) * c - a, z⟩

/-- `void add(const ecjacobian &q)`. -/
def add (p q : Ecjacobian F) : Ecjacobian F :=
  if q.z = 0 then p
  else if p.z = 0 then q
  else
    let a := p.z * p.z
    let b := q.y * a * p.z
    let a := a * q.x
    let (e, f) :=
      if q.z = 1 then (p.x, p.y) else
        let e := q.z * q.z
        (e * p.x, p.y * e * q.z)
    let c := e + a
    let d := f + b
    let a := e - a
    let b := f - b
    if a = 0 then if b = 0 then mul2 p else origin
    else
      let z := if q.z = 1 then p.z else p.z * q.z
      let e := a * a
      let f := c * e
      let x := b * b - f
      ⟨x, ((f - x - x) * b - e * a * d) / 2, z * a⟩

/-- The loop of `mul`: the bits of `q` below `i` remain. -/
def mulLoop (p : Ecjacobian F) (q : Nat) : Nat → Ecjacobian F → Ecjacobian F
  | 0, acc => acc
  | i + 1, acc => mulLoop p q i (if q.testBit i then add (mul2 acc) p else mul2 acc)

/-- `void mul(const ecjacobian &p, const bigint &q)`. -/
def mul (p : Ecjacobian F) (q : Nat) : Ecjacobian F := mulLoop p q q.size origin

/-- `void normalize()`. -/
def normalize (p : Ecjacobian F) : Ecjacobian F :=
  if p.z = 0 ∨ p.z = 1 then p
  else
    let z := p.z⁻¹
    let tmp := z * z
    ⟨p.x * tmp, p.y * tmp * z, 1⟩

/-! ## The group -/

/-- The curve. -/
def curve (B : F) : WeierstrassCurve.Affine F := ⟨0, 0, 0, -3, B⟩

variable {B : F}

theorem origin_z : (origin : Ecjacobian F).z = 0 := rfl

/-- The coordinates stand for a point. -/
def Stands (p : Ecjacobian F) : (curve B).Point → Prop
  | .zero => p = origin
  | .some x y _ => p.z ≠ 0 ∧ p.x = x * p.z ^ 2 ∧ p.y = y * p.z ^ 3

/-- The coordinates of a point, when they are normalized. -/
def ofPoint : (curve B).Point → Ecjacobian F
  | .zero => origin
  | .some x y _ => ⟨x, y, 1⟩

theorem stands_ofPoint (P : (curve B).Point) : Stands (ofPoint P) P := by
  cases P with
  | zero => rfl
  | some x y h => exact ⟨one_ne_zero, by simp [ofPoint], by simp [ofPoint]⟩

theorem negY_eq (x y : F) : (curve B).negY x y = -y := by
  simp [WeierstrassCurve.Affine.negY, curve]

/-- `normalize` gives the coordinates of the point. -/
theorem Stands.normalize {p : Ecjacobian F} {P : (curve B).Point} (h : Stands p P) :
    normalize p = ofPoint P := by
  unfold Ecjacobian.normalize
  cases P with
  | zero =>
    obtain rfl : p = origin := h
    exact if_pos (.inl origin_z)
  | some x y hxy =>
    obtain ⟨hz, hx, hy⟩ := h
    split
    · next hone =>
      rcases hone with hzero | hone
      · exact absurd hzero hz
      · rw [hone, one_pow, mul_one] at hx hy
        exact Ecjacobian.ext hx hy hone
    · refine Ecjacobian.ext ?_ ?_ rfl
      · dsimp only [ofPoint]
        rw [hx]
        field_simp
      · dsimp only [ofPoint]
        rw [hy]
        field_simp

/-- A point is doubled. -/
theorem Stands.mul2 (htwo : (2 : F) ≠ 0) {p : Ecjacobian F} {P : (curve B).Point}
    (h : Stands p P) : Stands (mul2 p) (P + P) := by
  unfold Ecjacobian.mul2
  cases P with
  | zero =>
    obtain rfl : p = origin := h
    rw [if_pos origin_z]
    rfl
  | some x y hxy =>
    obtain ⟨hz, hx, hy⟩ := h
    rw [if_neg hz]
    split
    · next hzero =>
      have hy0 : y = 0 := by
        rw [hy, mul_eq_zero] at hzero
        exact hzero.resolve_right (pow_ne_zero 3 hz)
      have hneg : y = (curve B).negY x y := by
        rw [negY_eq, hy0, neg_zero]
      rw [WeierstrassCurve.Affine.Point.add_self_of_Y_eq hneg]
      rfl
    · next hne =>
      have hy0 : y ≠ 0 := by
        rintro rfl
        exact hne (hy.trans (zero_mul _))
      have hneg : y ≠ (curve B).negY x y := by
        rw [negY_eq]
        intro heq
        have hsum : 2 * y = 0 := by linear_combination heq
        exact (mul_ne_zero htwo hy0) hsum
      rw [WeierstrassCurve.Affine.Point.add_self_of_Y_ne hneg]
      have hslope : (curve B).slope x x y y = (3 * x ^ 2 - 3) / (2 * y) := by
        rw [WeierstrassCurve.Affine.slope_of_Y_ne rfl hneg, negY_eq]
        simp only [curve]
        congr 1 <;> ring
      refine ⟨?_, ?_, ?_⟩
      · dsimp only
        have hsum : p.z * p.y + p.z * p.y = 2 * (p.z * p.y) := by ring
        rw [hsum]
        exact mul_ne_zero htwo (mul_ne_zero hz hne)
      · dsimp only
        rw [WeierstrassCurve.Affine.addX, hslope, hx, hy]
        simp only [curve]
        field_simp
        ring
      · dsimp only
        rw [WeierstrassCurve.Affine.addY, negY_eq, WeierstrassCurve.Affine.negAddY,
          WeierstrassCurve.Affine.addX, hslope, hx, hy]
        simp only [curve]
        field_simp
        ring

/-- The case of two points that are not the origin, whether `q` is normalized or not. -/
theorem add_of_z_ne {p q : Ecjacobian F} (hp : p.z ≠ 0) (hq : q.z ≠ 0) : add p q =
    if p.x * q.z ^ 2 - p.z * p.z * q.x = 0 then
      if p.y * q.z ^ 3 - q.y * (p.z * p.z) * p.z = 0 then Ecjacobian.mul2 p else origin
    else
      let c := p.x * q.z ^ 2 + p.z * p.z * q.x
      let d := p.y * q.z ^ 3 + q.y * (p.z * p.z) * p.z
      let a := p.x * q.z ^ 2 - p.z * p.z * q.x
      let b := p.y * q.z ^ 3 - q.y * (p.z * p.z) * p.z
      let x := b * b - c * (a * a)
      ⟨x, ((c * (a * a) - x - x) * b - a * a * a * d) / 2, p.z * q.z * a⟩ := by
  have hpair : (if q.z = 1 then (p.x, p.y) else (q.z * q.z * p.x, p.y * (q.z * q.z) * q.z)) =
      (p.x * q.z ^ 2, p.y * q.z ^ 3) := by
    split
    · next hone => rw [hone, one_pow, one_pow, mul_one, mul_one]
    · refine Prod.ext ?_ ?_
      · dsimp only
        ring
      · dsimp only
        ring
  have hz : (if q.z = 1 then p.z else p.z * q.z) = p.z * q.z := by
    split
    · next hone => rw [hone, mul_one]
    · rfl
  unfold add
  rw [if_neg hq, if_neg hp]
  dsimp only
  rw [hpair, hz]

/-- Two points are added. -/
theorem Stands.add (htwo : (2 : F) ≠ 0) {p q : Ecjacobian F} {P Q : (curve B).Point}
    (hp : Stands p P) (hq : Stands q Q) : Stands (add p q) (P + Q) := by
  cases Q with
  | zero =>
    obtain rfl : q = origin := hq
    rw [← WeierstrassCurve.Affine.Point.zero_def, add_zero, Ecjacobian.add, if_pos origin_z]
    exact hp
  | some x₂ y₂ h₂ =>
    cases P with
    | zero =>
      obtain rfl : p = origin := hp
      rw [← WeierstrassCurve.Affine.Point.zero_def, zero_add, Ecjacobian.add, if_neg hq.1,
        if_pos origin_z]
      exact hq
    | some x₁ y₁ h₁ =>
      have hp' := hp
      obtain ⟨hz₁, hx₁, hy₁⟩ := hp
      obtain ⟨hz₂, hx₂, hy₂⟩ := hq
      have hU : p.x * q.z ^ 2 - p.z * p.z * q.x = (x₁ - x₂) * (p.z ^ 2 * q.z ^ 2) := by
        rw [hx₁, hx₂]
        ring
      have hS : p.y * q.z ^ 3 - q.y * (p.z * p.z) * p.z = (y₁ - y₂) * (p.z ^ 3 * q.z ^ 3) := by
        rw [hy₁, hy₂]
        ring
      have hU0 : p.z ^ 2 * q.z ^ 2 ≠ 0 := mul_ne_zero (pow_ne_zero 2 hz₁) (pow_ne_zero 2 hz₂)
      have hS0 : p.z ^ 3 * q.z ^ 3 ≠ 0 := mul_ne_zero (pow_ne_zero 3 hz₁) (pow_ne_zero 3 hz₂)
      rw [add_of_z_ne hz₁ hz₂, hU, hS]
      by_cases hx : x₁ = x₂
      · subst hx
        rw [sub_self, zero_mul, if_pos rfl]
        by_cases hy : y₁ = y₂
        · subst hy
          rw [sub_self, zero_mul, if_pos rfl]
          exact hp'.mul2 htwo
        · have hsum : (y₁ - y₂) * (y₁ + y₂) = 0 := by
            have e₁ := ((curve B).equation_iff x₁ y₁).mp h₁.1
            have e₂ := ((curve B).equation_iff x₁ y₂).mp h₂.1
            simp only [curve] at e₁ e₂
            linear_combination e₁ - e₂
          have hneg : y₁ = (curve B).negY x₁ y₂ := by
            rw [negY_eq]
            have hzero := (mul_eq_zero.mp hsum).resolve_left (sub_ne_zero.mpr hy)
            linear_combination hzero
          rw [if_neg (mul_ne_zero (sub_ne_zero.mpr hy) hS0),
            WeierstrassCurve.Affine.Point.add_of_Y_eq rfl hneg]
          rfl
      · have hsub : x₁ - x₂ ≠ 0 := sub_ne_zero.mpr hx
        rw [if_neg (mul_ne_zero hsub hU0), WeierstrassCurve.Affine.Point.add_of_X_ne hx]
        have hslope : (curve B).slope x₁ x₂ y₁ y₂ = (y₁ - y₂) / (x₁ - x₂) :=
          WeierstrassCurve.Affine.slope_of_X_ne hx
        refine ⟨?_, ?_, ?_⟩
        · exact mul_ne_zero (mul_ne_zero hz₁ hz₂) (mul_ne_zero hsub hU0)
        · dsimp only
          rw [WeierstrassCurve.Affine.addX, hslope, hx₁, hx₂]
          simp only [curve]
          field_simp
          ring
        · dsimp only
          rw [WeierstrassCurve.Affine.addY, negY_eq, WeierstrassCurve.Affine.negAddY,
            WeierstrassCurve.Affine.addX, hslope, hx₁, hx₂, hy₁, hy₂]
          simp only [curve]
          field_simp
          ring

/-- The bits that have been read are the factor of the point. -/
theorem Stands.mulLoop (htwo : (2 : F) ≠ 0) {p acc : Ecjacobian F} {P : (curve B).Point}
    (hp : Stands p P) {q i : Nat} (hacc : Stands acc ((q / 2 ^ i) • P)) :
    Stands (mulLoop p q i acc) (q • P) := by
  induction i generalizing acc with
  | zero =>
    rw [pow_zero, Nat.div_one] at hacc
    exact hacc
  | succ i ih =>
    have hdouble := hacc.mul2 htwo
    rw [← two_nsmul, ← mul_nsmul'] at hdouble
    have hhalf : q / 2 ^ (i + 1) = q / 2 ^ i / 2 := by
      rw [pow_succ, Nat.div_div_eq_div_mul]
    have hbit := Nat.testBit_eq_decide_div_mod_eq (x := q) (i := i)
    refine ih ?_
    split
    · next h =>
      rw [hbit] at h
      have hodd := of_decide_eq_true h
      have hstep : q / 2 ^ i = 2 * (q / 2 ^ (i + 1)) + 1 := by omega
      rw [hstep, add_nsmul, one_nsmul]
      exact hdouble.add htwo hp
    · next h =>
      rw [hbit] at h
      have heven := of_decide_eq_false (Bool.eq_false_iff.mpr h)
      have hstep : q / 2 ^ i = 2 * (q / 2 ^ (i + 1)) := by omega
      rw [hstep]
      exact hdouble

/-- A point is multiplied. -/
theorem Stands.mul (htwo : (2 : F) ≠ 0) {p : Ecjacobian F} {P : (curve B).Point}
    (hp : Stands p P) (q : Nat) : Stands (mul p q) (q • P) := by
  refine hp.mulLoop htwo ?_
  rw [Nat.div_eq_of_lt (Nat.lt_size_self q), zero_nsmul]
  rfl

end Ecjacobian

end Zuckerserv
