import Zuckerserv.Fps.Combat
import Mathlib.Algebra.Order.BigOperators.Group.List
import Mathlib.Algebra.Order.Group.Int
import Mathlib.Algebra.Ring.Int.Defs
import Mathlib.Tactic.SplitIfs

/-!
# The rays of a shot

`shotevent::process` adds up the rays of the hits in an `int` and refuses a hit when the sum
exceeds the rays of the gun. The sum wraps around, so the hits of a client can get more
rays than the gun has.

* `Fair` — what is asked of a shot: its hits are valid, and have no more rays than the gun.
* `countedRays` — the rays of the hits that pass the checks, in exact arithmetic.
* `InBudget` — the condition on these: the sum stays below 2^31, or what comes from there
  on still fits.
* `fair_iff` — a shot is fair if and only if its rays are in the budget.
-/

namespace Zuckerserv

namespace Game

/-- The calls of `dodamage` in an effect. -/
def Effect.calls : Effect → List Call
  | .shot _ _ _ _ calls => calls
  | .explosion _ _ _ calls => calls
  | _ => []

/-- The calls of `dodamage` that a shot makes. -/
def ShotEvent.calls (env : Env) (s : Server) (c : Handle) (e : ShotEvent) : List Call :=
  (e.process env c s).2.flatMap Effect.calls

/-- A hit on a client that is alive, in the life it is for, with at least one ray. -/
structure Call.Valid (call : Call) : Prop where
  target : call.before.getinfo call.hit.target = some call.target
  alive : (call.before.info call.target).state.state = .ALIVE
  life : call.hit.lifesequence = (call.before.info call.target).state.lifesequence
  rays : 1 ≤ call.hit.rays.toInt

/-- The rays of the hits for which `dodamage` is called. -/
def sumRays (calls : List Call) : Int := (calls.map fun call => call.hit.rays.toInt).sum

/-- What is asked of a shot. -/
structure Fair (env : Env) (s : Server) (c : Handle) (e : ShotEvent) : Prop where
  valid : ∀ call ∈ e.calls env s c, call.Valid
  rays : ∀ gun, Gun.ofInt e.gun = some gun →
    sumRays (e.calls env s c) ≤ (guns gun).rays.toInt

/-- The rays of the hits that pass the checks when their turn comes, `total` being the exact
sum of the rays so far. -/
def countedRays (env : Env) (c : Handle) (gun : Gun) : Int → List HitInfo → Server → List Int
  | _, [], _ => []
  | total, h :: hits, s =>
    match s.shotTarget gun h with
    | none => countedRays env c gun total hits s
    | some target =>
      let total := total + h.rays.toInt
      h.rays.toInt :: countedRays env c gun total hits
        (if (guns gun).rays.toInt < total ∧ total < 2 ^ 31 then s
        else (hurt env c target gun h (quad (s.info c).state (h.rays * (guns gun).damage)) s).1)

/-- The sum of the rays stays below 2^31, or from the hit on with which it gets there all of
them together fit into what the hits that were let through, `used`, have left. -/
def InBudget (maxrays : Int) : Int → Int → List Int → Prop
  | _, _, [] => True
  | total, used, r :: rs =>
    if total + r < 2 ^ 31 then
      InBudget maxrays (total + r) (if total + r ≤ maxrays then used + r else used) rs
    else used + (r :: rs).sum ≤ maxrays

/-- The hits of a shot are in the budget of its gun; a shot that is refused or that is a
projectile has none. -/
def ShotEvent.InBudget (env : Env) (s : Server) (c : Handle) (e : ShotEvent) : Prop :=
  match e.allowed env s c with
  | none | some .RL | some .GL => True
  | some gun => Game.InBudget (guns gun).rays.toInt 0 0
      (countedRays env c gun 0 e.hits (s.modifyState c (fire e gun)))

/-! ## The checks of a hit -/

theorem shotTarget_eq_some {s : Server} {gun : Gun} {h : HitInfo} {target : Handle}
    (ht : s.shotTarget gun h = some target) : (⟨target, h, s⟩ : Call).Valid := by
  obtain ⟨hget, hchecks⟩ := Option.filter_eq_some_iff.mp ht
  have hchecks := of_decide_eq_true hchecks
  simp only [not_or, not_not] at hchecks
  obtain ⟨halive, hlife, hrays, -⟩ := hchecks
  refine ⟨hget, halive, hlife, ?_⟩
  have hone := Int32.lt_iff_toInt_lt.not.mp hrays
  exact Int.not_lt.mp hone

section Hits

variable {env : Env} {c target : Handle} {gun : Gun} {h : HitInfo} {hits : List HitInfo}
  {s : Server}

/-- The server after a hit has been let through. -/
def afterHit (env : Env) (c target : Handle) (gun : Gun) (h : HitInfo) (s : Server) : Server :=
  (hurt env c target gun h (quad (s.info c).state (h.rays * (guns gun).damage)) s).1

theorem shotHits_none (ht : s.shotTarget gun h = none) (total : Int32) :
    shotHits env c gun total (h :: hits) s = shotHits env c gun total hits s := by
  simp only [shotHits, Prog.choose, ht]

theorem shotHits_refused (ht : s.shotTarget gun h = some target) {total : Int32}
    (hgt : total + h.rays > (guns gun).rays) :
    shotHits env c gun total (h :: hits) s = shotHits env c gun (total + h.rays) hits s := by
  simp only [shotHits, Prog.choose, ht, if_pos hgt]

/-- A hit that is let through makes one call, in front of those of the hits behind it. -/
theorem shotHits_through (ht : s.shotTarget gun h = some target) {total : Int32}
    (hgt : ¬ total + h.rays > (guns gun).rays) :
    (shotHits env c gun total (h :: hits) s).2 = ⟨target, h, s⟩ ::
      (shotHits env c gun (total + h.rays) hits (afterHit env c target gun h s)).2 := by
  simp only [shotHits, Prog.choose, ht, if_neg hgt]
  rfl

/-- Every call is valid. -/
theorem shotHits_valid (total : Int32) :
    ∀ call ∈ (shotHits env c gun total hits s).2, call.Valid := by
  induction hits generalizing total s with
  | nil => exact fun call hcall => absurd hcall List.not_mem_nil
  | cons h hits ih =>
    cases ht : s.shotTarget gun h with
    | none =>
      rw [shotHits_none ht]
      exact ih total
    | some target =>
      by_cases hgt : total + h.rays > (guns gun).rays
      · rw [shotHits_refused ht hgt]
        exact ih _
      · rw [shotHits_through ht hgt]
        intro call hcall
        rcases List.mem_cons.mp hcall with rfl | hcall
        · exact shotTarget_eq_some ht
        · exact ih _ call hcall

theorem sumRays_nonneg {calls : List Call} (hvalid : ∀ call ∈ calls, call.Valid) :
    0 ≤ sumRays calls := by
  refine List.sum_nonneg fun r hr => ?_
  obtain ⟨call, hcall, rfl⟩ := List.mem_map.mp hr
  exact le_trans Int.one_nonneg (hvalid call hcall).rays

theorem countedRays_none (ht : s.shotTarget gun h = none) (total : Int) :
    countedRays env c gun total (h :: hits) s = countedRays env c gun total hits s := by
  simp only [countedRays, ht]

theorem countedRays_some (ht : s.shotTarget gun h = some target) (total : Int) :
    countedRays env c gun total (h :: hits) s =
      h.rays.toInt :: countedRays env c gun (total + h.rays.toInt) hits
        (if (guns gun).rays.toInt < total + h.rays.toInt ∧ total + h.rays.toInt < 2 ^ 31 then s
        else afterHit env c target gun h s) := by
  simp only [countedRays, ht]
  rfl

theorem countedRays_nonneg (total : Int) : 0 ≤ (countedRays env c gun total hits s).sum := by
  induction hits generalizing total s with
  | nil => exact le_rfl
  | cons h hits ih =>
    cases ht : s.shotTarget gun h with
    | none =>
      rw [countedRays_none ht]
      exact ih total
    | some target =>
      have hr : 1 ≤ h.rays.toInt := (shotTarget_eq_some ht).rays
      rw [countedRays_some ht, List.sum_cons]
      exact add_nonneg (by omega) (ih _)

/-! ## The sum of the rays -/

theorem rays_bounds (gun : Gun) : 1 ≤ (guns gun).rays.toInt ∧ (guns gun).rays.toInt ≤ 20 := by
  cases gun <;> decide

/-- When the sum has got past 2^31 every further hit is let through, as long as what has
been let through is in the budget. -/
theorem wrapped_iff {t : Int32} {total used : Int} (ht : t.toInt = total - 2 ^ 32)
    (hlow : 2 ^ 31 ≤ total) (hhigh : total < 2 ^ 31 + used)
    (hused : used ≤ (guns gun).rays.toInt) :
    used + sumRays (shotHits env c gun t hits s).2 ≤ (guns gun).rays.toInt ↔
      used + (countedRays env c gun total hits s).sum ≤ (guns gun).rays.toInt := by
  induction hits generalizing t total used s with
  | nil => exact Iff.rfl
  | cons h hits ih =>
    cases hh : s.shotTarget gun h with
    | none =>
      rw [shotHits_none hh, countedRays_none hh]
      exact ih ht hlow hhigh hused
    | some target =>
      obtain ⟨-, hM⟩ := rays_bounds gun
      have hr : 1 ≤ h.rays.toInt := (shotTarget_eq_some hh).rays
      have hr' := h.rays.toInt_lt
      have hadd : (t + h.rays).toInt = total + h.rays.toInt - 2 ^ 32 := by
        rw [Int32.toInt_add, Int.bmod_eq_of_le] <;> omega
      have hgt : ¬ t + h.rays > (guns gun).rays := by
        rw [gt_iff_lt, Int32.lt_iff_toInt_lt, hadd]
        omega
      rw [shotHits_through hh hgt, countedRays_some hh, if_neg (by omega), sumRays, List.map_cons,
        List.sum_cons, List.sum_cons, ← add_assoc, ← add_assoc, ← sumRays]
      dsimp only
      by_cases hfit : used + h.rays.toInt ≤ (guns gun).rays.toInt
      · exact ih hadd (by omega) (by omega) hfit
      · -- the budget has been exceeded, and stays so
        have h1 : 0 ≤ sumRays (shotHits env c gun (t + h.rays) hits
          (afterHit env c target gun h s)).2 := sumRays_nonneg (shotHits_valid _)
        have h2 : 0 ≤ (countedRays env c gun (total + h.rays.toInt) hits
          (afterHit env c target gun h s)).sum := countedRays_nonneg _
        omega

/-- As long as the sum is below 2^31 it is the exact one. -/
theorem budget_iff {t : Int32} {total used : Int} (ht : t.toInt = total) (hlow : 0 ≤ used)
    (hle : used ≤ total) (hhigh : total < 2 ^ 31) (hused : used ≤ (guns gun).rays.toInt) :
    used + sumRays (shotHits env c gun t hits s).2 ≤ (guns gun).rays.toInt ↔
      InBudget (guns gun).rays.toInt total used (countedRays env c gun total hits s) := by
  induction hits generalizing t total used s with
  | nil => exact iff_of_true ((add_zero used).trans_le hused) trivial
  | cons h hits ih =>
    cases hh : s.shotTarget gun h with
    | none =>
      rw [shotHits_none hh, countedRays_none hh]
      exact ih ht hlow hle hhigh hused
    | some target =>
      obtain ⟨-, hM⟩ := rays_bounds gun
      have hr : 1 ≤ h.rays.toInt := (shotTarget_eq_some hh).rays
      have hr' := h.rays.toInt_lt
      rw [countedRays_some hh, InBudget]
      by_cases hwrap : total + h.rays.toInt < 2 ^ 31
      · have hadd : (t + h.rays).toInt = total + h.rays.toInt := by
          rw [Int32.toInt_add, Int.bmod_eq_of_le] <;> omega
        rw [if_pos hwrap]
        by_cases hfit : total + h.rays.toInt ≤ (guns gun).rays.toInt
        · have hgt : ¬ t + h.rays > (guns gun).rays := by
            rw [gt_iff_lt, Int32.lt_iff_toInt_lt, hadd]
            omega
          rw [shotHits_through hh hgt, if_pos hfit, if_neg (by omega), sumRays, List.map_cons,
            List.sum_cons, ← add_assoc, ← sumRays]
          dsimp only
          exact ih hadd (by omega) (by omega) hwrap (by omega)
        · have hgt : t + h.rays > (guns gun).rays := by
            rw [gt_iff_lt, Int32.lt_iff_toInt_lt, hadd]
            omega
          rw [shotHits_refused hh hgt, if_neg hfit, if_pos (by omega)]
          exact ih hadd hlow (by omega) hwrap hused
      · have hadd : (t + h.rays).toInt = total + h.rays.toInt - 2 ^ 32 := by
          rw [Int32.toInt_add, Int.bmod_def]
          split <;> omega
        have hgt : ¬ t + h.rays > (guns gun).rays := by
          rw [gt_iff_lt, Int32.lt_iff_toInt_lt, hadd]
          omega
        rw [if_neg hwrap, shotHits_through hh hgt, if_neg (by omega), sumRays, List.map_cons,
          List.sum_cons, List.sum_cons, ← add_assoc, ← add_assoc, ← sumRays]
        dsimp only
        by_cases hfit : used + h.rays.toInt ≤ (guns gun).rays.toInt
        · exact wrapped_iff hadd (by omega) (by omega) hfit
        · have h1 : 0 ≤ sumRays (shotHits env c gun (t + h.rays) hits
            (afterHit env c target gun h s)).2 := sumRays_nonneg (shotHits_valid _)
          have h2 : 0 ≤ (countedRays env c gun (total + h.rays.toInt) hits
            (afterHit env c target gun h s)).sum := countedRays_nonneg _
          omega

end Hits

/-! ## A shot as a whole -/

section Shot

variable {env : Env} {s : Server} {c : Handle} {e : ShotEvent}

theorem calls_none (h : e.allowed env s c = none) : e.calls env s c = [] := by
  simp only [ShotEvent.calls, ShotEvent.process, h]
  rfl

theorem calls_some {gun : Gun} (h : e.allowed env s c = some gun) :
    e.calls env s c = (e.shoot env c gun (s.modifyState c (fire e gun))).2 := by
  simp only [ShotEvent.calls, ShotEvent.process, h]
  exact List.append_nil _

theorem ofInt_of_allowed {gun : Gun} (h : e.allowed env s c = some gun) :
    Gun.ofInt e.gun = some gun := (Option.filter_eq_some_iff.mp h).1

/-- A shot without calls is fair. -/
theorem fair_of_nil (h : e.calls env s c = []) : Fair env s c e where
  valid call hcall := absurd (h ▸ hcall) List.not_mem_nil
  rays gun _ := by
    rw [h]
    exact le_trans Int.one_nonneg (rays_bounds gun).1

/-- A shot with hits is fair if and only if these are in the budget. -/
theorem fair_hits_iff {gun : Gun} (h : e.allowed env s c = some gun)
    (hshoot : e.shoot env c gun = shotHits env c gun 0 e.hits) :
    Fair env s c e ↔ Game.InBudget (guns gun).rays.toInt 0 0
      (countedRays env c gun 0 e.hits (s.modifyState c (fire e gun))) := by
  have hcalls : e.calls env s c = _ := calls_some h
  rw [hshoot] at hcalls
  have hzero : (0 : Int32).toInt = 0 := rfl
  have hbudget : 0 + sumRays (shotHits env c gun 0 e.hits (s.modifyState c (fire e gun))).2 ≤
      (guns gun).rays.toInt ↔ Game.InBudget (guns gun).rays.toInt 0 0
        (countedRays env c gun 0 e.hits (s.modifyState c (fire e gun))) :=
    budget_iff hzero le_rfl le_rfl (by decide) (le_trans Int.one_nonneg (rays_bounds gun).1)
  rw [← hcalls, zero_add] at hbudget
  rw [← hbudget]
  constructor
  · exact fun hfair => hfair.rays gun (ofInt_of_allowed h)
  · refine fun hle => ⟨hcalls ▸ shotHits_valid _, fun gun' hgun' => ?_⟩
    rw [ofInt_of_allowed h] at hgun'
    exact Option.some.inj hgun' ▸ hle

/-- A shot has valid hits and no more rays than its gun if and only if the sum of the rays
does not wrap around, or what is let through from there on still fits. -/
theorem fair_iff (env : Env) (s : Server) (c : Handle) (e : ShotEvent) :
    Fair env s c e ↔ e.InBudget env s c := by
  unfold ShotEvent.InBudget
  cases h : e.allowed env s c with
  | none => exact iff_of_true (fair_of_nil (calls_none h)) trivial
  | some gun =>
    cases gun with
    | RL => exact iff_of_true (fair_of_nil (calls_some h)) trivial
    | «GL» => exact iff_of_true (fair_of_nil (calls_some h)) trivial
    | FIST => exact fair_hits_iff h rfl
    | SG => exact fair_hits_iff h rfl
    | CG => exact fair_hits_iff h rfl
    | RIFLE => exact fair_hits_iff h rfl
    | PISTOL => exact fair_hits_iff h rfl

end Shot

/-! ## A shot that is not fair -/

/-- A shot with the pistol, which has one ray: it hits player 1 with one ray and then with
2^31 - 1 more. -/
def overflowingShot : ShotEvent where
  millis := 10000
  id := 1
  gun := 6
  origin := ⟨0, 0, 0⟩
  dest := ⟨0, 0, 0⟩
  hits := [⟨1, 1, 1, 0, ⟨0, 0, 0⟩⟩, ⟨1, 1, 0x7FFFFFFF, 0, ⟨0, 0, 0⟩⟩]

/-- `dodamage` is called for both hits. -/
theorem overflowingShot_not_fair : ¬ Fair quiet duel 0 overflowingShot := by
  intro hfair
  have hrays : sumRays (overflowingShot.calls quiet duel 0) = 2 ^ 31 := by decide +kernel
  have hle := hfair.rays .PISTOL (by decide)
  rw [hrays] at hle
  exact absurd hle (by decide)

end Game

end Zuckerserv
