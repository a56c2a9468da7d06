import Mathlib.Order.Nat
import Zuckerserv.Fps.Combat

/-!
# Privileges given and taken

A client with a privilege may give one to another client, or take it away: `N_SETMASTER` with
the number of the other client and the direction.

* `Staff`, `setPlayerPrivilege`, `setmaster` — the privileges, and the request.
* `Staff.Entitled`, `Staff.Fair` — who may ask, and what is to come of it.
* `staff_fair_iff` — when the request does what it should.
* `unset_raises` — a request to take away what is not there gives it.
-/

namespace Zuckerserv

namespace Game

open IntIndex

/-- The server with the privileges of its clients. -/
structure Staff where
  server : Server
  /-- `PRIV_NONE` is 0, `PRIV_MASTER` 1, `PRIV_AUTH` 2 and `PRIV_ADMIN` 3. -/
  privilege : Handle → Nat
  hidePrivilege : Handle → Bool

namespace Staff

/-- `PRIV_MASTER`. -/
def PRIV_MASTER : Nat := 1

/-! ## The code -/

/-- `void unset_player_privilege(int cn)`, for the client found. -/
def unsetPlayerPrivilege (s : Staff) (ci : Handle) : Staff :=
  { s with privilege := Function.update s.privilege ci 0 }

/-- `void set_player_privilege(int cn, int priv_code, bool public_priv)`. -/
def setPlayerPrivilege (s : Staff) (cn : Int32) (priv_code : Nat) (public_priv : Bool) : Staff :=
  match s.server.getinfo cn with
  | none => s
  | some player =>
    if s.privilege player = priv_code ∧ s.hidePrivilege player ≠ public_priv then s
    else
      let public_priv := !(s.server.info player).spy && public_priv
      let s := if priv_code = 0 then s.unsetPlayerPrivilege player else s
      { s with
        privilege := Function.update s.privilege player priv_code
        hidePrivilege := Function.update s.hidePrivilege player !public_priv }

/-- `bool set_player_master(int cn)`. -/
def setPlayerMaster (s : Staff) (cn : Int32) : Staff := s.setPlayerPrivilege cn PRIV_MASTER true

/-- The client that the request is about. -/
def target (s : Staff) (mn : Int32) : Option Handle := (item s.server.slots mn).join

/-- The case `N_SETMASTER` for another client, sent by `ci`. -/
def setmaster (s : Staff) (ci : Handle) (mn val : Int32) : Staff :=
  if s.privilege ci = 0 ∧ ¬ (s.server.info ci).islocal then s
  else match s.target mn with
    | none => s
    | some minfo =>
      if ¬ (s.server.info minfo).connected ∨
          (¬ (s.server.info ci).islocal ∧ s.privilege minfo ≥ s.privilege ci) ∨
          (val ≠ 0 ∧ s.privilege minfo ≠ 0) then s
      else s.setPlayerMaster mn

/-! ## What is to come of it -/

/-- The client `ci`, not a local one, may make the request. -/
def Entitled (s : Staff) (ci : Handle) (mn val : Int32) : Prop :=
  s.privilege ci ≠ 0 ∧ ∃ minfo, s.target mn = some minfo ∧ (s.server.info minfo).connected = true ∧
    s.privilege minfo < s.privilege ci ∧ (val = 0 ∨ s.privilege minfo = 0)

/-- What the request may change: `s'` is the server after it. -/
structure Fair (s s' : Staff) (ci : Handle) (mn val : Int32) : Prop where
  /-- Taking a privilege away raises nobody. -/
  lower : val = 0 → ∀ t, s.target mn = some t → s'.privilege t ≤ s.privilege t
  /-- Nobody is given more than the sender holds. -/
  raise : val = 1 → ∀ t, s.target mn = some t →
    s'.privilege t ≤ s.privilege t ∨ s'.privilege t ≤ s.privilege ci
  refused : ¬ s.Entitled ci mn val → ∀ d, s'.privilege d = s.privilege d
  others : ∀ d, s.target mn ≠ some d → s'.privilege d = s.privilege d

/-- The client that is found by the number gets the privilege of a master: it is the one the
request is about and the request is not one to take away from it what it does not have; or it
is a master already. -/
def MeantFor (s : Staff) (mn val : Int32) : Prop :=
  ∀ player, s.server.getinfo mn = some player →
    s.privilege player = PRIV_MASTER ∨
      (s.target mn = some player ∧ (val ≠ 0 ∨ s.privilege player ≠ 0))

/-! ## When it does -/

/-- `set_player_master` makes a master of the client it finds, and touches nobody else. -/
theorem setPlayerMaster_privilege (s : Staff) (mn : Int32) (d : Handle) :
    (s.setPlayerMaster mn).privilege d =
      if s.server.getinfo mn = some d then PRIV_MASTER else s.privilege d := by
  unfold setPlayerMaster setPlayerPrivilege
  cases hget : s.server.getinfo mn with
  | none => rfl
  | some player =>
    dsimp only
    by_cases hd : player = d
    · subst hd
      rw [if_pos rfl]
      split
      · rename_i hsame
        exact hsame.1
      · exact Function.update_self ..
    · rw [if_neg fun h => hd (Option.some.inj h)]
      split
      · rfl
      · exact Function.update_of_ne (Ne.symm hd) ..

variable {s : Staff} {ci : Handle} {mn val : Int32}

theorem setmaster_entitled (h : s.Entitled ci mn val) :
    s.setmaster ci mn val = s.setPlayerMaster mn := by
  obtain ⟨hpriv, minfo, htarget, hcon, hlt, hval⟩ := h
  unfold setmaster
  rw [if_neg fun h => hpriv h.1, htarget]
  dsimp only
  refine if_neg ?_
  rintro (h | ⟨-, h⟩ | ⟨h, h'⟩)
  · exact h hcon
  · exact absurd hlt (not_lt.mpr h)
  · exact hval.elim h h'

theorem setmaster_refused (hlocal : (s.server.info ci).islocal = false)
    (h : ¬ s.Entitled ci mn val) : s.setmaster ci mn val = s := by
  unfold setmaster
  split_ifs with hnone
  · rfl
  · split
    · rfl
    · rename_i minfo htarget
      refine if_pos ?_
      by_contra hchecks
      simp only [not_or, not_not, not_and_or] at hchecks
      obtain ⟨hcon, hless, hval⟩ := hchecks
      refine h ⟨fun h0 => hnone ⟨h0, by simp [hlocal]⟩, minfo, htarget, hcon, ?_, ?_⟩
      · exact not_le.mp (hless.resolve_left (by simp [hlocal]))
      · exact hval

/-- The request does what it should if and only if it is refused, or meant for the one it
finds. -/
theorem staff_fair_iff (hlocal : (s.server.info ci).islocal = false) :
    s.Fair (s.setmaster ci mn val) ci mn val ↔ (s.Entitled ci mn val → s.MeantFor mn val) := by
  by_cases hent : s.Entitled ci mn val
  · rw [setmaster_entitled hent]
    obtain ⟨hpriv, minfo, htarget, hcon, hlt, hval⟩ := id hent
    constructor
    · intro hfair _ player hget
      have hmaster := setPlayerMaster_privilege s mn player
      rw [if_pos hget] at hmaster
      by_cases hplayer : s.target mn = some player
      · refine .inr ⟨hplayer, ?_⟩
        by_contra hno
        obtain ⟨hzero, hnone⟩ := not_or.mp hno
        have hraised := hfair.lower (not_not.mp hzero) player hplayer
        rw [hmaster, not_not.mp hnone] at hraised
        exact absurd hraised (by decide)
      · left
        rw [← hfair.others player hplayer, hmaster]
    · intro hmeant
      have hmeant := hmeant hent
      have hkept {d : Handle} (hd : s.target mn ≠ some d) :
          (s.setPlayerMaster mn).privilege d = s.privilege d := by
        rw [setPlayerMaster_privilege]
        split
        · rename_i hget
          exact ((hmeant d hget).resolve_right fun h => hd h.1).symm
        · rfl
      refine ⟨fun hzero t ht => ?_, fun hone t ht => ?_, fun h => absurd hent h, fun d hd => hkept hd⟩
      · rw [setPlayerMaster_privilege]
        split
        · rename_i hget
          rcases hmeant t hget with h | ⟨-, h⟩
          · exact h.ge
          · exact Nat.one_le_iff_ne_zero.mpr (h.resolve_left fun h => h hzero)
        · exact le_rfl
      · rw [setPlayerMaster_privilege]
        split
        · exact .inr (Nat.one_le_iff_ne_zero.mpr hpriv)
        · exact .inl le_rfl
  · rw [setmaster_refused hlocal hent]
    exact ⟨fun _ h => absurd h hent, fun _ =>
      ⟨fun _ _ _ => le_rfl, fun _ _ _ => .inl le_rfl, fun _ _ => rfl, fun _ _ => rfl⟩⟩

/-- A master and a player without a privilege. -/
def masterAndPlayer : Staff := ⟨duel, fun c => if c = 0 then PRIV_MASTER else 0, fun _ => false⟩

/-- The master gives its privilege to the player. -/
theorem staff_fair_iff_masterAndPlayer :
    masterAndPlayer.Fair (masterAndPlayer.setmaster 0 1 1) 0 1 1 :=
  (staff_fair_iff rfl).mpr fun _ player hget => .inr ⟨hget, .inl (by decide)⟩

/-- A request to take the privilege from a player who has none makes it a master. -/
theorem unset_raises : ¬ masterAndPlayer.Fair (masterAndPlayer.setmaster 0 1 0) 0 1 0 :=
  fun h => absurd (h.lower rfl 1 rfl) (by decide)

end Staff

end Game

end Zuckerserv
