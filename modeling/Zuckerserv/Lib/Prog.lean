import Mathlib.Data.List.Basic

/-!
# Programs that change a state and can be observed

A `Prog` takes a state to a new one and gives the list of what can be observed on the
way; a machine runs one program for each action. What a program does is said by contracts:
relations between the state before, what is observed and the state after, that may be
composed.

* `Prog.skip`, `Prog.act`, `Prog.seq`, `Prog.each`, `Prog.choose` — programs.
* `Contract`, `Contract.Meets` — a contract, and that a program meets it; one rule for each
  way of composing programs.
* `Contract.keeps`, `Contract.emits`, `Contract.both` — an invariant, a property of everything
  that is observed, and two contracts at once.
* `run`, `Reachable` — the runs of a machine, and the states they reach.
-/

namespace Zuckerserv

variable {σ α ε : Type}

/-- A program: a change of the state, and what is observed. -/
def Prog (σ ε : Type) := σ → σ × List ε

namespace Prog

/-- Do nothing. -/
def skip : Prog σ ε := fun s => (s, [])

/-- Change the state, the observations `o` being made. -/
def act (f : σ → σ) (o : List ε) : Prog σ ε := fun s => (f s, o)

/-- Change the state silently. -/
def modify (f : σ → σ) : Prog σ ε := act f []

/-- One program after the other. -/
def seq (p q : Prog σ ε) : Prog σ ε := fun s =>
  let (s, o) := p s
  let (s, o') := q s
  (s, o ++ o')

/-- The program `f` for every element of a list. -/
def each (f : α → Prog σ ε) : List α → Prog σ ε
  | [] => skip
  | a :: as => seq (f a) (each f as)

/-- A program that is chosen when the state is known. -/
def choose (f : σ → Prog σ ε) : Prog σ ε := fun s => f s s

end Prog

/-! ## Contracts -/

/-- What a program may do: from which state, with what observations, to which state. -/
structure Contract (σ ε : Type) where
  /-- The state before, what is observed, and the state after. -/
  rel : σ → List ε → σ → Prop
  /-- Nothing may always be done. -/
  refl : ∀ s, rel s [] s
  /-- What may be done may be done one after the other. -/
  trans : ∀ {s s' s'' o o'}, rel s o s' → rel s' o' s'' → rel s (o ++ o') s''

namespace Contract

/-- The program meets the contract when it begins in `s`. -/
def MeetsAt (R : Contract σ ε) (p : Prog σ ε) (s : σ) : Prop := R.rel s (p s).2 (p s).1

/-- The program meets the contract. -/
def Meets (R : Contract σ ε) (p : Prog σ ε) : Prop := ∀ s, R.MeetsAt p s

variable {R : Contract σ ε} {p q : Prog σ ε}

theorem MeetsAt.congr {s : σ} (h : p s = q s) (hq : R.MeetsAt q s) : R.MeetsAt p s := by
  unfold MeetsAt
  rwa [h]

theorem MeetsAt.seq {s : σ} (hp : R.MeetsAt p s) (hq : R.MeetsAt q (p s).1) :
    R.MeetsAt (.seq p q) s := R.trans hp hq

/-- The condition is known when the choice is made. -/
theorem MeetsAt.ite {s : σ} {c : Prop} [Decidable c] (hp : c → R.MeetsAt p s)
    (hq : ¬ c → R.MeetsAt q s) : R.MeetsAt (if c then p else q) s := by
  split
  · exact hp ‹_›
  · exact hq ‹_›

namespace Meets

theorem skip : R.Meets .skip := R.refl

theorem seq (hp : R.Meets p) (hq : R.Meets q) : R.Meets (.seq p q) := fun s => (hp s).seq (hq _)

theorem ite {c : Prop} [Decidable c] (hp : R.Meets p) (hq : R.Meets q) :
    R.Meets (if c then p else q) := by
  split
  · exact hp
  · exact hq

theorem choose {f : σ → Prog σ ε} (h : ∀ s, R.Meets (f s)) : R.Meets (.choose f) := fun s => h s s

/-- A choice between two programs. -/
theorem guard {c : σ → Prop} [∀ s, Decidable (c s)] (hp : R.Meets p) (hq : R.Meets q) :
    R.Meets (.choose fun s => if c s then p else q) := .choose fun _ => .ite hp hq

/-- The state is known when the choice is made. -/
theorem chooseAt {f : σ → Prog σ ε} (h : ∀ s, R.MeetsAt (f s) s) : R.Meets (.choose f) := h

theorem each {f : α → Prog σ ε} {as : List α} (h : ∀ a, R.Meets (f a)) : R.Meets (.each f as) := by
  induction as with
  | nil => exact skip
  | cons a as ih => exact (h a).seq ih

end Meets

/-- The contract to keep an invariant of the state. -/
def keeps (P : σ → Prop) : Contract σ ε where
  rel s _ s' := P s → P s'
  refl _ h := h
  trans h h' hs := h' (h hs)

/-- The contract to keep `P` and, while it holds, to let nothing but `Q` be observed. -/
def keepsEmitting (P : σ → Prop) (Q : ε → Prop) : Contract σ ε where
  rel s o s' := P s → P s' ∧ ∀ e ∈ o, Q e
  refl _ h := ⟨h, fun _ he => absurd he List.not_mem_nil⟩
  trans h h' hs := by
    obtain ⟨hs', ho⟩ := h hs
    obtain ⟨hs'', ho'⟩ := h' hs'
    refine ⟨hs'', fun e he => ?_⟩
    rcases List.mem_append.mp he with he | he
    · exact ho e he
    · exact ho' e he

end Contract

/-! ## Runs -/

/-- The machine that does `step a` for the action `a`, run on a list of actions. -/
def run (step : α → Prog σ ε) : List α → Prog σ ε := Prog.each step

theorem run_append (step : α → Prog σ ε) (as bs : List α) (s : σ) :
    (run step (as ++ bs) s).1 = (run step bs (run step as s).1).1 := by
  induction as generalizing s with
  | nil => rfl
  | cons a as ih => exact ih _

/-- What every step meets, every run meets. -/
theorem Contract.Meets.run {R : Contract σ ε} {step : α → Prog σ ε} (h : ∀ a, R.Meets (step a))
    (as : List α) : R.Meets (run step as) := .each h

/-- The states that are reached from the initial ones. -/
def Reachable (init : σ → Prop) (step : α → Prog σ ε) (s : σ) : Prop :=
  ∃ s₀ as, init s₀ ∧ s = (run step as s₀).1

/-- An invariant holds in every state that is reached. -/
theorem Reachable.inv {init : σ → Prop} {step : α → Prog σ ε} {P : σ → Prop}
    (hinit : ∀ s, init s → P s) (hstep : ∀ a, (Contract.keeps P).Meets (step a)) {s : σ}
    (h : Reachable init step s) : P s := by
  obtain ⟨s₀, as, h0, rfl⟩ := h
  exact Contract.Meets.run hstep as s₀ (hinit s₀ h0)

end Zuckerserv
