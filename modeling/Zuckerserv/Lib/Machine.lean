import Mathlib.Data.List.Basic

/-!
# Machines

A machine changes its state with every action. What all actions keep, or all that meet a
condition, holds in every state of a run.

* `Machine.run` — the state after a list of actions.
* `Machine.Along` — a run in which every action is allowed in the state it is done in.
* `Machine.Since` — a property has held from some state of a run to its end.
* `Machine.run_inv`, `Machine.Along.inv` — the invariant rules.
-/

namespace Zuckerserv

namespace Machine

variable {σ α : Type} {step : σ → α → σ} {ok : σ → α → Prop} {P : σ → Prop}

/-- The state after a list of actions. -/
def run (step : σ → α → σ) (s : σ) (as : List α) : σ := as.foldl step s

theorem run_append (s : σ) (as bs : List α) :
    run step s (as ++ bs) = run step (run step s as) bs := List.foldl_append

/-- Every action is one that `ok` allows in the state it is done in. -/
def Along (ok : σ → α → Prop) (step : σ → α → σ) : σ → List α → Prop
  | _, [] => True
  | s, a :: as => ok s a ∧ Along ok step (step s a) as

theorem along_append {s : σ} {as bs : List α} :
    Along ok step s (as ++ bs) ↔ Along ok step s as ∧ Along ok step (run step s as) bs := by
  induction as generalizing s with
  | nil => exact ⟨fun h => ⟨trivial, h⟩, fun h => h.2⟩
  | cons a as ih => exact (and_congr_right fun _ => ih).trans and_assoc.symm

/-- A run is allowed if and only if each of its actions is. -/
theorem along_iff {s : σ} {as : List α} :
    Along ok step s as ↔ ∀ bs a cs, as = bs ++ a :: cs → ok (run step s bs) a := by
  constructor
  · rintro h bs a cs rfl
    exact (along_append.mp h).2.1
  · intro h
    induction as generalizing s with
    | nil => trivial
    | cons a as ih =>
      exact ⟨h [] a as rfl, ih fun bs b cs has => h (a :: bs) b cs (congrArg (a :: ·) has)⟩

/-- Actions that are allowed in every state. -/
theorem Along.of_forall {allowed : α → Prop} {s : σ} {as : List α} (h : ∀ a ∈ as, allowed a) :
    Along (fun _ => allowed) step s as := by
  induction as generalizing s with
  | nil => trivial
  | cons a as ih =>
    exact ⟨h a List.mem_cons_self, ih fun b hb => h b (List.mem_cons_of_mem a hb)⟩

/-- Actions that are allowed, and all of one kind. -/
theorem Along.and_forall {kind : α → Prop} {s : σ} {as : List α} (h : Along ok step s as)
    (hkind : ∀ a ∈ as, kind a) : Along (fun s a => kind a ∧ ok s a) step s as := by
  induction as generalizing s with
  | nil => trivial
  | cons a as ih =>
    exact ⟨⟨hkind a List.mem_cons_self, h.1⟩,
      ih h.2 fun b hb => hkind b (List.mem_cons_of_mem a hb)⟩

/-- What the allowed actions keep holds at the end of the run. -/
theorem Along.inv (hstep : ∀ s a, ok s a → P s → P (step s a)) {s : σ} {as : List α}
    (h : Along ok step s as) (hs : P s) : P (run step s as) := by
  induction as generalizing s with
  | nil => exact hs
  | cons a as ih => exact ih h.2 (hstep s a h.1 hs)

/-- What every action keeps holds at the end of the run. -/
theorem run_inv (hstep : ∀ s a, P s → P (step s a)) {s : σ} (hs : P s) (as : List α) :
    P (run step s as) := by
  induction as generalizing s with
  | nil => exact hs
  | cons a as ih => exact ih (hstep s a hs)

/-- Where an allowed action is one that keeps the property, a run keeps it in all its states if and
only if every action is allowed. -/
theorem always_iff_along (hstep : ∀ s a, P s → (ok s a ↔ P (step s a))) {s : σ} (hs : P s)
    (as : List α) :
    (∀ bs cs, as = bs ++ cs → P (run step s bs)) ↔ Along ok step s as := by
  constructor
  · intro h
    refine along_iff.mpr fun bs a cs has => (hstep _ a (h bs (a :: cs) has)).mpr ?_
    have hnext := h (bs ++ [a]) cs (by rw [has, List.append_assoc]; rfl)
    rw [run, List.foldl_concat] at hnext
    exact hnext
  · rintro h bs cs rfl
    exact (along_append.mp h).1.inv (fun s a ha hs => (hstep s a hs).mp ha) hs

/-! ## Histories -/

/-- The property has held in every state of the run since the action `k`. -/
def Since (step : σ → α → σ) (s₀ : σ) (as : List α) (k : Nat) (P : σ → Prop) : Prop :=
  ∀ j, k ≤ j → j ≤ as.length → P (run step s₀ (as.take j))

theorem run_snoc (s : σ) (as : List α) (a : α) :
    run step s (as ++ [a]) = step (run step s as) a := List.foldl_concat ..

/-- What holds now has held since now. -/
theorem Since.now {s₀ : σ} {as : List α} (h : P (run step s₀ as)) :
    Since step s₀ as as.length P := by
  intro j hj hj'
  rwa [Nat.le_antisymm hj' hj, List.take_length]

/-- What has held, and still does after one more action. -/
theorem Since.snoc {s₀ : σ} {as : List α} {a : α} {k : Nat} (h : Since step s₀ as k P)
    (hlast : P (run step s₀ (as ++ [a]))) : Since step s₀ (as ++ [a]) k P := by
  intro j hj hj'
  rcases Nat.lt_or_ge as.length j with hlt | hge
  · have hlength : (as ++ [a]).length ≤ j := by
      rw [List.length_append]
      exact hlt
    rwa [List.take_of_length_le hlength]
  · rw [List.take_append_of_le_length hge]
    exact h j hj hge

end Machine

end Zuckerserv
