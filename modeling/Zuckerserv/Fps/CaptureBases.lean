import Mathlib.Algebra.Order.Group.Int
import Zuckerserv.Fps.Capture
import Zuckerserv.Lib.Census

/-!
# The counters of a base

The counters of a base fit when they do not exceed how many there are of each team.

* `Base.Fits` — the counters fit.
* `Base.Fits.enter`, `Base.Fits.leave`, `Base.Fits.steal`, `Base.Fits.moved` — what clients do to a
  base keeps that, when the numbers change as told.
* `Base.Fits.occupy`, `Base.Fits.update` — so does the time.
-/

namespace Zuckerserv

namespace Capture

open Ctf (Cn Name)
open Game (Vec)
open Census

namespace Base

/-- The base is used, and the place is inside it. -/
def holds (b : Base) (o : Place) : Bool := b.valid && b.inside o

/-- The counters do not exceed how many there are of each team. -/
structure Fits (b : Base) (n : Name → Nat) : Prop where
  owners_nonneg : 0 ≤ b.owners
  owners_le : b.owners ≤ n b.owner
  enemies_nonneg : 0 ≤ b.enemies
  enemies_le : b.enemies ≤ n b.enemy
  apart : b.owner = b.enemy → b.owner = []

variable {b : Base} {n n' : Name → Nat} {team : Name}

theorem one_self (team : Name) : one (some team) team = 1 := if_pos rfl

theorem one_of_ne {team k : Name} (h : team ≠ k) : one (some team) k = 0 :=
  if_neg fun heq => h (Option.some.inj heq)

theorem Fits.mono (h : b.Fits n) (hn : ∀ k, n k ≤ n' k) : b.Fits n' where
  owners_nonneg := h.owners_nonneg
  owners_le := h.owners_le.trans (Int.ofNat_le.mpr (hn _))
  enemies_nonneg := h.enemies_nonneg
  enemies_le := h.enemies_le.trans (Int.ofNat_le.mpr (hn _))
  apart := h.apart

theorem fits_fresh (inside : Vec → Bool) (valid : Bool) (n : Name → Nat) :
    (fresh inside valid).Fits n :=
  ⟨le_rfl, Int.natCast_nonneg _, le_rfl, Int.natCast_nonneg _, fun _ => rfl⟩

theorem Fits.enter (h : b.Fits n) (hn : ∀ k, n k + one (some team) k ≤ n' k) :
    (b.enter team).Fits n' := by
  obtain ⟨howners, howner, henemies, henemy, hapart⟩ := h
  have hteam := hn team
  rw [one_self] at hteam
  have hmono (k : Name) : n k ≤ n' k := (Nat.le_add_right _ _).trans (hn k)
  have hmono_owner := hmono b.owner
  have hmono_enemy := hmono b.enemy
  unfold Base.enter
  split
  · rename_i heq
    refine ⟨?_, ?_, henemies, ?_, hapart⟩
    · show 0 ≤ b.owners + 1
      omega
    · show b.owners + 1 ≤ n' b.owner
      rw [heq] at howner ⊢
      omega
    · show b.enemies ≤ n' b.enemy
      omega
  · rename_i hne
    split
    · rename_i hzero
      refine ⟨howners, ?_, ?_, ?_, fun h => absurd h hne⟩
      · show b.owners ≤ n' b.owner
        omega
      · show 0 ≤ b.enemies + 1
        omega
      · show b.enemies + 1 ≤ n' team
        omega
    · split
      · exact ⟨howners, by omega, henemies, by omega, hapart⟩
      · rename_i heq
        rw [not_not] at heq
        refine ⟨howners, ?_, ?_, ?_, hapart⟩
        · show b.owners ≤ n' b.owner
          omega
        · show 0 ≤ b.enemies + 1
          omega
        · show b.enemies + 1 ≤ n' b.enemy
          rw [heq] at henemy ⊢
          omega

theorem Fits.leave (h : b.Fits n) (hteam : team ≠ [])
    (hn : ∀ k, n k ≤ n' k + one (some team) k) : (b.leave team).Fits n' := by
  obtain ⟨howners, howner, henemies, henemy, hapart⟩ := h
  have hself := hn team
  rw [one_self] at hself
  have hother {k : Name} (hk : team ≠ k) : n k ≤ n' k := by
    have hle := hn k
    rwa [one_of_ne hk] at hle
  have henemy' : b.enemy ≠ team → b.enemies ≤ n' b.enemy := by
    intro hne
    have hle := hother hne.symm
    omega
  unfold Base.leave
  split
  · rename_i hleaves
    obtain ⟨heq, hpos⟩ := hleaves
    refine ⟨?_, ?_, henemies, henemy' fun h => ?_, hapart⟩
    · show 0 ≤ b.owners - 1
      omega
    · show b.owners - 1 ≤ n' b.owner
      rw [heq] at howner ⊢
      omega
    · exact hteam (heq ▸ hapart (heq.trans h.symm))
  · rename_i hstays
    have howner' : b.owners ≤ n' b.owner := by
      by_cases heq : b.owner = team
      · have hle : b.owners ≤ 0 := not_lt.mp fun hpos => hstays ⟨heq, hpos⟩
        omega
      · have hle := hother (Ne.symm heq)
        omega
    split
    · rename_i hstays
      refine ⟨howners, howner', henemies, ?_, hapart⟩
      by_cases heq : b.enemy = team
      · have hle := hstays.resolve_left (not_not.mpr heq)
        omega
      · exact henemy' heq
    · rename_i hleaves
      obtain ⟨heq, hpos⟩ := not_or.mp hleaves
      rw [not_not] at heq
      refine ⟨howners, howner', ?_, ?_, hapart⟩
      · show 0 ≤ b.enemies - 1
        omega
      · show b.enemies - 1 ≤ n' b.enemy
        rw [heq] at henemy ⊢
        omega

/-- Clients of one team enter, one after another. -/
theorem fits_enters {thieves : List Name} (hthieves : ∀ t ∈ thieves, t = team) (j : Nat)
    (h : b.Fits (Function.update n team j)) :
    (thieves.foldl Base.enter b).Fits (Function.update n team (j + thieves.length)) := by
  induction thieves generalizing b j with
  | nil => exact h
  | cons t thieves ih =>
    have ht : t = team := hthieves t List.mem_cons_self
    subst ht
    have hentered : (b.enter t).Fits (Function.update n t (j + 1)) := by
      refine h.enter fun k => ?_
      by_cases hk : t = k
      · subst hk
        rw [one_self, Function.update_self, Function.update_self]
      · rw [one_of_ne hk, Function.update_of_ne (Ne.symm hk), Function.update_of_ne (Ne.symm hk)]
        exact le_rfl
    have hrest := ih (fun u hu => hthieves u (List.mem_cons_of_mem t hu)) (j + 1) hentered
    rwa [List.length_cons, Nat.add_comm thieves.length, ← Nat.add_assoc]

/-- Nobody of the team has been counted, and now all that are there are. -/
theorem Fits.steal (h : b.Fits n) (hsteal : b.steal team) {thieves : List Name}
    (hthieves : ∀ t ∈ thieves, t = team) (hlength : thieves.length ≤ n' team)
    (hn : ∀ k, n k ≤ n' k) : (thieves.foldl Base.enter b).Fits n' := by
  obtain ⟨hzero, hne⟩ := hsteal
  have hnone : b.Fits (Function.update n team 0) := by
    refine ⟨h.owners_nonneg, ?_, h.enemies_nonneg, ?_, h.apart⟩
    · rw [Function.update_of_ne hne]
      exact h.owners_le
    · rw [hzero]
      exact Int.natCast_nonneg _
  refine (fits_enters hthieves 0 hnone).mono fun k => ?_
  by_cases hk : k = team
  · rw [hk, Function.update_self, Nat.zero_add]
    exact hlength
  · rw [Function.update_of_ne hk]
    exact hn k

/-- The base changes its owner only when nobody of the owners is there. -/
theorem Fits.occupy (h : b.Fits n) {units : Int} (hunits : 0 ≤ units → b.owners = 0) :
    (b.occupy team units).Fits n := by
  obtain ⟨howners, howner, henemies, henemy, hapart⟩ := h
  unfold Base.occupy
  split
  · exact ⟨howners, howner, henemies, henemy, hapart⟩
  dsimp only
  split
  · split
    · exact ⟨howners, howner, le_rfl, Int.natCast_nonneg _, fun heq => heq⟩
    · exact ⟨howners, howner, henemies, henemy, hapart⟩
  · rename_i hteam hpos
    rw [not_not] at hteam
    split
    · split
      · exact ⟨howners, howner, henemies, henemy, hapart⟩
      · refine ⟨howners, ?_, henemies, hteam ▸ henemy, fun _ => rfl⟩
        show b.owners ≤ n []
        rw [hunits (not_lt.mp hpos)]
        exact Int.natCast_nonneg _
    · split
      · exact ⟨howners, howner, henemies, henemy, hapart⟩
      · exact ⟨henemies, hteam ▸ henemy, le_rfl, Int.natCast_nonneg _, fun heq => heq⟩

/-- After some seconds. -/
theorem Fits.update (h : b.Fits n) {t : Int} (ht : 1 ≤ t) : (b.update t).Fits n := by
  unfold Base.update
  split
  · exact h
  rename_i hcounts
  obtain ⟨-, hcounts⟩ := not_or.mp hcounts
  obtain ⟨-, hcounts⟩ := not_or.mp hcounts
  rw [not_not] at hcounts
  refine h.occupy fun hunits => hcounts.resolve_right fun hnone => ?_
  have hpos : 0 ≤ (1 + b.owners) * t := by
    have howners := h.owners_nonneg
    exact Int.mul_nonneg (by omega) (by omega)
  rw [if_neg (not_not.mpr hnone), if_neg (not_not.mpr hnone)] at hunits
  unfold OCCUPYBONUS OCCUPYPOINTS at hunits
  rw [Int.one_mul, Int.one_mul, Int.neg_mul] at hunits
  omega

/-! ## What a client does to a base -/

/-- For which team a client at a place counts, if it counts. -/
def side (team : Name) (clip : Bool) (o : Place) (b : Base) : Option Name :=
  if team ≠ [] ∧ clip = false ∧ b.holds o then some team else none

theorem side_clip (team : Name) (o : Place) (b : Base) : side team true o b = none :=
  if_neg fun h => absurd h.2.1 (by decide)

theorem side_cases (team : Name) (clip : Bool) (o : Place) (b : Base) :
    side team clip o b = none ∨ side team clip o b = some team := by
  unfold side
  split
  · exact .inr rfl
  · exact .inl rfl

theorem side_isSome {clip : Bool} {o : Place} (hteam : team ≠ []) (hvalid : b.valid = true) :
    (!clip && b.inside o) = (side team clip o b).isSome := by
  unfold side holds
  cases clip <;> cases hinside : b.inside o <;> simp [hteam, hvalid]

/-- A client that leaves, enters, or stays and makes its team be counted. -/
theorem Fits.moved (h : b.Fits n) (hteam : team ≠ []) {oldpos newpos : Place}
    {oldclip newclip : Bool} {thieves : List Name}
    (hn : ∀ k, n k + one (side team newclip newpos b) k ≤
      n' k + one (side team oldclip oldpos b) k)
    (hthieves : ∀ t ∈ thieves, t = team)
    (hlength : side team oldclip oldpos b ≠ none → side team newclip newpos b ≠ none →
      b.steal team → thieves.length ≤ n' team) :
    (b.moved team (!oldclip && b.inside oldpos) (!newclip && b.inside newpos) thieves).Fits n' := by
  unfold Base.moved
  split
  · rename_i hvalid
    refine h.mono fun k => ?_
    have hnone (clip : Bool) (o : Place) : side team clip o b = none :=
      if_neg fun hside => hvalid (Bool.and_eq_true_iff.mp hside.2.2).1
    have hle := hn k
    rwa [hnone, hnone] at hle
  rename_i hvalid
  rw [not_not] at hvalid
  rw [side_isSome hteam hvalid, side_isSome hteam hvalid]
  rcases side_cases team oldclip oldpos b with hold | hold <;>
    rcases side_cases team newclip newpos b with hnew | hnew <;> rw [hold, hnew] at hn ⊢
  · rw [if_neg (by simp), if_neg (by simp), if_neg (by simp)]
    exact h.mono hn
  · rw [if_neg (by simp), if_pos (by simp)]
    exact h.enter hn
  · rw [if_pos (by simp)]
    exact h.leave hteam hn
  · rw [if_neg (by simp), if_neg (by simp)]
    have hmono (k : Name) : n k ≤ n' k := Nat.le_of_add_le_add_right (hn k)
    split
    · rename_i hsteal
      exact h.steal hsteal.2.2 hthieves
        (hlength (by simp [hold]) (by simp [hnew]) hsteal.2.2) hmono
    · exact h.mono hmono

theorem holds_enter (b : Base) (team : Name) : (b.enter team).holds = b.holds := by
  unfold Base.enter
  split
  · rfl
  · split
    · rfl
    · split <;> rfl

theorem holds_leave (b : Base) (team : Name) : (b.leave team).holds = b.holds := by
  unfold Base.leave
  split
  · rfl
  · split <;> rfl

theorem holds_enters (b : Base) (thieves : List Name) :
    (thieves.foldl Base.enter b).holds = b.holds := by
  induction thieves generalizing b with
  | nil => rfl
  | cons t thieves ih => exact (ih (b.enter t)).trans (holds_enter b t)

theorem holds_moved (b : Base) (team : Name) (leave enter : Bool) (thieves : List Name) :
    (b.moved team leave enter thieves).holds = b.holds := by
  unfold Base.moved
  split
  · rfl
  · split
    · exact holds_leave b team
    · split
      · exact holds_enter b team
      · split
        · exact holds_enters b thieves
        · rfl

theorem holds_occupy (b : Base) (team : Name) (units : Int) :
    (b.occupy team units).holds = b.holds := by
  unfold Base.occupy
  split
  · rfl
  · dsimp only
    split
    · split <;> rfl
    · split <;> split <;> rfl

theorem holds_update (b : Base) (t : Int) : (b.update t).holds = b.holds := by
  unfold Base.update
  split
  · rfl
  · exact holds_occupy b b.enemy _

end Base

end Capture

end Zuckerserv
