import Mathlib.Data.List.Count
import Zuckerserv.Fps.GameState

/-!
# How many clients there are

The clients are counted that pass the filters, and then all the spies are taken off. But a spy
that does not pass them has not been counted.

* `numclients`, `getplayercount`, `getspeccount` — the counts of the server.
* `wanted` — how many clients pass the filters and are no spies.
* `numclients_iff` — the counts are those if and only if all the spies pass, too.
* `spectating_spy` — one spy that is a spectator is enough for a count of -1.
-/

namespace Zuckerserv

namespace ClientCounts

open Game (PlayState)

/-- The fields of `clientinfo` that are used. -/
structure Client where
  clientnum : Int32
  state : PlayState
  /-- `privilege != PRIV_NONE`. -/
  privileged : Bool
  islocal : Bool
  /-- `state.aitype != AI_NONE`. -/
  isBot : Bool
  spy : Bool
  deriving DecidableEq

/-- The connected clients, and the spies. -/
structure Server where
  clients : List Client
  spies : List Client

/-! ## The code -/

/-- The condition of the loop in `numclients`. -/
def Client.Passes (exclude : Int32) (nospec noai priv : Bool) (ci : Client) : Prop :=
  ci.clientnum ≠ exclude ∧
    (¬ nospec ∨ ci.state ≠ .SPECTATOR ∨ (priv ∧ (ci.privileged ∨ ci.islocal))) ∧
    (¬ noai ∨ ci.isBot = false)

instance (exclude : Int32) (nospec noai priv : Bool) (ci : Client) :
    Decidable (ci.Passes exclude nospec noai priv) := inferInstanceAs (Decidable (_ ∧ _))

namespace Server

/-- `int numclients(int exclude, bool nospec, bool noai, bool priv)`. -/
def numclients (s : Server) (exclude : Int32) (nospec noai priv : Bool) : Int :=
  let n : Int := s.clients.foldl
    (fun n ci => if ci.Passes exclude nospec noai priv then n + 1 else n) 0
  n - s.spies.length

/-- `int getplayercount()`. -/
def getplayercount (s : Server) : Int := s.numclients (-1) false true false

/-- `int getspeccount()`. -/
def getspeccount (s : Server) : Int := s.getplayercount - s.numclients (-1) true true false

/-! ## What is meant -/

/-- How many of the connected clients are no spies and pass the filters. -/
def wanted (s : Server) (exclude : Int32) (nospec noai priv : Bool) : Nat :=
  s.clients.countP fun ci => ci.spy = false ∧ ci.Passes exclude nospec noai priv

/-- How many of the connected clients are spies and pass the filters. -/
def passing (s : Server) (exclude : Int32) (nospec noai priv : Bool) : Nat :=
  s.clients.countP fun ci => ci.spy = true ∧ ci.Passes exclude nospec noai priv

/-- The spies are the connected clients that have the flag. -/
def Listed (s : Server) : Prop := s.spies.Perm (s.clients.filter (·.spy))

variable (s : Server) (exclude : Int32) (nospec noai priv : Bool)

/-! ## The counts -/

theorem foldl_count {α : Type*} (p : α → Prop) [DecidablePred p] (l : List α) (n : Int) :
    l.foldl (fun n x => if p x then n + 1 else n) n = n + l.countP p := by
  induction l generalizing n with
  | nil => exact (Int.add_zero n).symm
  | cons x l ih =>
    rw [List.foldl_cons, ih, List.countP_cons]
    by_cases hx : p x
    · rw [if_pos hx, if_pos (decide_eq_true hx)]
      push_cast
      omega
    · rw [if_neg hx, if_neg (by simpa using hx)]
      rfl

/-- Every client that is counted is a spy, or is not. -/
theorem countP_passes : s.clients.countP (fun ci => ci.Passes exclude nospec noai priv) =
    s.wanted exclude nospec noai priv + s.passing exclude nospec noai priv := by
  rw [wanted, passing]
  induction s.clients with
  | nil => rfl
  | cons ci l ih =>
    rw [List.countP_cons, List.countP_cons, List.countP_cons, ih]
    cases ci.spy <;> simp <;> omega

/-- All the spies are taken off, whether they have been counted or not. -/
theorem numclients_eq : s.numclients exclude nospec noai priv =
    s.wanted exclude nospec noai priv + s.passing exclude nospec noai priv - s.spies.length := by
  rw [numclients, foldl_count, countP_passes]
  push_cast
  omega

/-- The counts are those of the clients that are no spies if and only if the spies that pass the
filters are as many as all the spies; for the count of the spectators, if those of them that are
players are as many as those that are no spectators. -/
theorem numclients_iff :
    (s.numclients exclude nospec noai priv = s.wanted exclude nospec noai priv ∧
      0 ≤ s.numclients exclude nospec noai priv ↔
        s.passing exclude nospec noai priv = s.spies.length) ∧
    (s.getplayercount = s.wanted (-1) false true false ↔
      s.passing (-1) false true false = s.spies.length) ∧
    (s.getspeccount = s.wanted (-1) false true false - s.wanted (-1) true true false ↔
      s.passing (-1) false true false = s.passing (-1) true true false) := by
  rw [getspeccount, getplayercount]
  simp only [numclients_eq]
  omega

/-- Where the spies are listed, all of them have to pass the filters. -/
theorem passing_eq_iff {s : Server} (h : s.Listed) :
    s.passing exclude nospec noai priv = s.spies.length ↔
      ∀ ci ∈ s.spies, ci.Passes exclude nospec noai priv := by
  have hpassing : s.passing exclude nospec noai priv =
      s.spies.countP (fun ci => ci.Passes exclude nospec noai priv) := by
    rw [h.countP_eq, List.countP_filter, passing]
    congr 1
    funext ci
    simp [Bool.and_comm]
  rw [hpassing, List.countP_eq_length]
  exact forall₂_congr fun ci _ => decide_eq_true_iff

/-- A spy that is a spectator. -/
def watcher : Client := ⟨5, .SPECTATOR, true, false, false, true⟩

/-- A spy who watches is taken off, although a spectator has not been counted. -/
theorem spectating_spy : ¬ ∀ (s : Server), s.Listed → ∀ exclude nospec noai priv,
    s.numclients exclude nospec noai priv = s.wanted exclude nospec noai priv ∧
      0 ≤ s.numclients exclude nospec noai priv := by
  intro h
  have hcount := (h ⟨[watcher], [watcher]⟩ (List.Perm.refl _) (-1) true true false).2
  exact absurd hcount (by decide)

end Server

end ClientCounts

end Zuckerserv
