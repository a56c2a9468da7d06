import Mathlib.Data.List.Nodup
import Mathlib.Logic.Function.Basic
import Zuckerserv.Lib.Machine

/-!
# Deferred values

A deferred is settled once, and then calls the handlers that have been attached to it, and those
that are attached later, one after the other. Each handler has a deferred of its own, which is
settled by what the handler returns. A handler that is being called may do all that a program
does; the loops that call handlers are frames of a stack.

* `attach`, `settle`, `yield` — `deferred_next`, `deferred_resolve` and `deferred_reject`, and what
  follows when a handler returns.
* `Action`, `step` — what the code on the top of the stack does, and one step of a loop.
* `Calm` — nothing is attached to a deferred whose loop is going on.
* `Queues`, `Flow` — the queues, the handlers that have been called, and the stack.
-/

namespace Zuckerserv

namespace Deferreds

/-- How a deferred is settled: this chooses the handler, and how the next deferred is settled. -/
inductive Kind
  | resolve
  | reject
  deriving DecidableEq

/-- What a handler returns. -/
inductive Result (α : Type)
  | plain (value : α)
  | deferred (d : Nat)
  deriving DecidableEq

/-- The handler of a child has been called, with the value. -/
structure Fire (α : Type) where
  child : Nat
  kind : Kind
  value : α
  deriving DecidableEq

/-- What the loop of a deferred does about the head of the queue: its handler is running, or has
settled the deferred it is bound to; or the head is about to be removed. -/
inductive Task
  | running
  | settling
  | dropping
  deriving DecidableEq

/-- A call of `deferred_flush_queue`, with the head it has taken from the queue. -/
structure Frame where
  deferred : Nat
  task : Option (Nat × Task)
  deriving DecidableEq

/-- All deferreds, by their numbers: whether they are settled, and their queues; `target` is the
deferred that the handlers of a child are bound to, where they have been made by `bind`. `stack` has
the innermost call first. For the record, there is the deferred that a child belongs to, what has
been attached, the handlers that have been called and what they have returned. -/
structure State (α : Type) where
  count : Nat
  finished : Nat → Option (Kind × α)
  queue : Nat → List Nat
  target : Nat → Option Nat
  stack : List Frame
  failed : Bool
  parent : Nat → Option Nat
  attached : Nat → List Nat
  fired : Nat → List (Fire α)
  returned : Nat → Option (Result α)

variable {α : Type}

/-- A program starts. -/
def State.init : State α :=
  ⟨0, fun _ => none, fun _ => [], fun _ => none, [], false, fun _ => none, fun _ => [], fun _ => [],
    fun _ => none⟩

/-! ## The code -/

/-- `deferred_flush_queue(d)` is called, if `d` is finished. -/
def flush (s : State α) (d : Nat) : State α :=
  if s.finished d = none then s else { s with stack := ⟨d, none⟩ :: s.stack }

/-- `deferred_next(d, …)`, with handlers of the program, or such as are bound to `target`. -/
def attach (s : State α) (d : Nat) (target : Option Nat) : State α :=
  flush
    { s with
      count := s.count + 1
      queue := Function.update s.queue d (s.queue d ++ [s.count])
      target := Function.update s.target s.count target
      parent := Function.update s.parent s.count (some d)
      attached := Function.update s.attached d (s.attached d ++ [s.count]) } d

/-- `deferred_resolve(d, value)` and `deferred_reject(d, value)`, with the assertion. -/
def settle (s : State α) (d : Nat) (kind : Kind) (value : α) : State α :=
  if s.finished d = none then
    flush { s with finished := Function.update s.finished d (some (kind, value)) } d
  else { s with failed := true }

/-- The handler of the child `h` of `d` is called. -/
def fire (s : State α) (d h : Nat) (kind : Kind) (value : α) (task : Task) (rest : List Frame) :
    State α :=
  { s with
    stack := ⟨d, some (h, task)⟩ :: rest
    fired := Function.update s.fired d (s.fired d ++ [⟨h, kind, value⟩]) }

/-- The handler of the child `h` of `d` returns. -/
def yield (s : State α) (d h : Nat) (result : Result α) (rest : List Frame) : State α :=
  let s := { s with
    stack := ⟨d, some (h, .dropping)⟩ :: rest
    returned := Function.update s.returned h (some result) }
  match result, s.finished d with
  | .plain value, some (kind, _) => settle s h kind value
  | .plain _, none => s
  | .deferred r, _ => attach s r (some h)

/-- What happens: code of the program does something, or a loop goes on. -/
inductive Action (α : Type)
  | new
  | next (d : Nat)
  | settle (d : Nat) (kind : Kind) (value : α)
  | ret (result : Result α)
  | tick

/-- Code of the program is running: a handler, or the program itself. -/
def State.code (s : State α) : Bool :=
  match s.stack with
  | [] => true
  | frame :: _ => frame.task.any (·.2 == .running)

/-- One step of the loop on the top; `unit` is what the functions of `bind` return. -/
def tick (unit : α) (s : State α) : State α :=
  match s.stack with
  | [] => s
  | ⟨d, none⟩ :: rest =>
    match s.finished d, s.queue d with
    | some (kind, value), h :: _ =>
      match s.target h with
      | none => fire s d h kind value .running rest
      | some n => settle (fire s d h kind value .settling rest) n kind value
    | _, _ => { s with stack := rest }
  | ⟨_, some (_, .running)⟩ :: _ => s
  | ⟨d, some (h, .settling)⟩ :: rest => yield s d h (.plain unit) rest
  | ⟨d, some (_, .dropping)⟩ :: rest =>
    { s with queue := Function.update s.queue d (s.queue d).tail, stack := ⟨d, none⟩ :: rest }

/-- The deferred exists. -/
def Result.Known (count : Nat) : Result α → Prop
  | .plain _ => True
  | .deferred r => r < count

instance (count : Nat) (result : Result α) : Decidable (result.Known count) := by
  cases result <;> unfold Result.Known <;> infer_instance

/-- One step. A program only uses deferreds that there are, and settles a deferred of its own that
has not been settled; nothing happens after an assertion has failed. -/
def step (unit : α) (s : State α) (a : Action α) : State α :=
  if s.failed then s
  else
    match a with
    | .new => if s.code then { s with count := s.count + 1 } else s
    | .next d => if s.code ∧ d < s.count then attach s d none else s
    | .settle d kind value =>
      if s.code ∧ d < s.count ∧ s.parent d = none ∧ s.finished d = none then
        settle s d kind value
      else s
    | .ret result =>
      match s.stack with
      | ⟨d, some (h, .running)⟩ :: rest =>
        if result.Known s.count then yield s d h result rest else s
      | _ => s
    | .tick => tick unit s

/-- Nothing is attached to a deferred whose loop is going on: neither by `next`, nor because a
handler returns it. -/
def Calm (s : State α) : Action α → Prop
  | .next d | .ret (.deferred d) => d ∉ s.stack.map Frame.deferred
  | _ => True

instance (s : State α) (a : Action α) : Decidable (Calm s a) :=
  match a with
  | .next d | .ret (.deferred d) =>
    inferInstanceAs (Decidable (d ∉ s.stack.map Frame.deferred))
  | .new | .settle .. | .ret (.plain _) | .tick => inferInstanceAs (Decidable True)

/-! ## The queues -/

/-- The children of a deferred whose handlers have been called. -/
def State.called (s : State α) (d : Nat) : List Nat := (s.fired d).map Fire.child

/-- What the loop of a deferred is doing. -/
def taskOf (stack : List Frame) (d : Nat) : Option (Nat × Task) :=
  (stack.find? (·.deferred == d)).bind Frame.task

/-- The children whose handlers are still to be called. -/
def pending (task : Option (Nat × Task)) (queue : List Nat) : List Nat :=
  if task = none then queue else queue.tail

/-- What holds of the queues: a loop has called its head when it has a task, and the children are
those that have been called and those that wait, in their order. -/
structure Queues (s : State α) : Prop where
  ok : s.failed = false
  nodup : (s.stack.map Frame.deferred).Nodup
  done : ∀ f ∈ s.stack, s.finished f.deferred ≠ none
  order : ∀ d, s.attached d = s.called d ++ pending (taskOf s.stack d) (s.queue d)
  busy : ∀ f ∈ s.stack, ∀ h t, f.task = some (h, t) →
    (∃ rest, s.queue f.deferred = h :: rest) ∧ h ∈ s.called f.deferred
  unfired : ∀ d, s.finished d = none → s.fired d = []
  value : ∀ d, ∀ x ∈ s.fired d, s.finished d = some (x.kind, x.value)
  child : ∀ d, ∀ c ∈ s.attached d, s.parent c = some d ∧ c < s.count
  distinct : ∀ d, (s.attached d).Nodup
  known : ∀ n, s.count ≤ n → s.finished n = none ∧ s.attached n = [] ∧ s.parent n = none

/-- Where no loop is going on, nothing waits for a deferred that is finished. -/
structure Flow (s : State α) : Prop extends Queues s where
  empty : ∀ d, s.finished d ≠ none → d ∉ s.stack.map Frame.deferred → s.queue d = []

theorem flow_init : Flow (State.init : State α) where
  ok := rfl
  nodup := List.nodup_nil
  done _ hf := absurd hf List.not_mem_nil
  order _ := rfl
  busy _ hf := absurd hf List.not_mem_nil
  unfired _ _ := rfl
  value _ _ hx := absurd hx List.not_mem_nil
  child _ _ hc := absurd hc List.not_mem_nil
  distinct _ := List.nodup_nil
  known _ _ := ⟨rfl, rfl, rfl⟩
  empty _ _ _ := rfl

section Steps

variable {s : State α} {d n h : Nat} {kind : Kind} {value : α} {rest : List Frame}
  {t : Option (Nat × Task)}

theorem taskOf_cons_self : taskOf (⟨d, t⟩ :: rest) d = t := by
  rw [taskOf, List.find?_cons_of_pos (p := fun f : Frame => f.deferred == d) (beq_self_eq_true d),
    Option.bind_some]

theorem taskOf_cons_of_ne {d' : Nat} (hne : d' ≠ d) :
    taskOf (⟨d, t⟩ :: rest) d' = taskOf rest d' := by
  rw [taskOf, List.find?_cons_of_neg (by simpa using hne.symm), taskOf]

theorem taskOf_of_not_mem {stack : List Frame} (hd : d ∉ stack.map Frame.deferred) :
    taskOf stack d = none := by
  have hfind : stack.find? (·.deferred == d) = none := by
    refine List.find?_eq_none.mpr fun f hf heq => hd ?_
    rw [← eq_of_beq heq]
    exact List.mem_map_of_mem hf
  rw [taskOf, hfind, Option.bind_none]

/-- A deferred whose loop is going on is finished. -/
theorem Queues.not_mem_stack (hs : Queues s) (hd : s.finished d = none) :
    d ∉ s.stack.map Frame.deferred := by
  intro hmem
  obtain ⟨f, hf, rfl⟩ := List.mem_map.mp hmem
  exact hs.done f hf hd

/-- A loop starts. -/
theorem Queues.flush (hs : Queues s) (hd : d ∉ s.stack.map Frame.deferred)
    (hempty : ∀ d', d' ≠ d → s.finished d' ≠ none → d' ∉ s.stack.map Frame.deferred →
      s.queue d' = []) : Flow (flush s d) := by
  rw [Deferreds.flush]
  split
  · next hnone =>
    refine ⟨hs, fun d' hd' hmem => ?_⟩
    exact hempty d' (fun heq => hd' (heq ▸ hnone)) hd' hmem
  · next hfinished =>
    refine ⟨⟨hs.ok, ?_, ?_, ?_, ?_, hs.unfired, hs.value, hs.child, hs.distinct, hs.known⟩, ?_⟩
    · exact List.nodup_cons.mpr ⟨hd, hs.nodup⟩
    · intro f hf
      rcases List.mem_cons.mp hf with rfl | hf
      · exact hfinished
      · exact hs.done f hf
    · intro d'
      have horder := hs.order d'
      by_cases hd' : d' = d
      · rw [hd', taskOf_of_not_mem hd] at horder
        rw [hd', taskOf_cons_self]
        exact horder
      · rw [taskOf_cons_of_ne hd']
        exact horder
    · intro f hf i t ht
      rcases List.mem_cons.mp hf with rfl | hf
      · exact absurd ht nofun
      · exact hs.busy f hf i t ht
    · intro d' hd' hmem
      rw [List.map_cons, List.mem_cons, not_or] at hmem
      exact hempty d' hmem.1 hd' hmem.2

/-- A deferred is settled. -/
theorem Flow.settle (hs : Flow s) (hn : n < s.count) (hnone : s.finished n = none) (kind : Kind)
    (value : α) : Flow (settle s n kind value) := by
  have hmem := hs.not_mem_stack hnone
  rw [Deferreds.settle, if_pos hnone]
  refine Queues.flush
    ⟨hs.ok, hs.nodup, ?_, hs.order, hs.busy, ?_, ?_, hs.child, hs.distinct, ?_⟩ hmem ?_
  · intro f hf
    dsimp only
    by_cases hd : f.deferred = n
    · rw [hd, Function.update_self]
      exact nofun
    · rw [Function.update_of_ne hd]
      exact hs.done f hf
  · intro d hd
    dsimp only at hd
    by_cases heq : d = n
    · rw [heq, Function.update_self] at hd
      exact absurd hd nofun
    · rw [Function.update_of_ne heq] at hd
      exact hs.unfired d hd
  · intro d x hx
    dsimp only
    by_cases heq : d = n
    · have hfired := hs.unfired n hnone
      dsimp only at hx
      rw [heq, hfired] at hx
      exact absurd hx List.not_mem_nil
    · rw [Function.update_of_ne heq]
      exact hs.value d x hx
  · intro m hm
    dsimp only
    rw [Function.update_of_ne (Nat.ne_of_gt (Nat.lt_of_lt_of_le hn hm))]
    exact hs.known m hm
  · intro d hd hfinished hstack
    dsimp only at hfinished
    rw [Function.update_of_ne hd] at hfinished
    exact hs.empty d hfinished hstack

/-- A child is attached. -/
theorem Flow.attach (hs : Flow s) (hd : d < s.count) (hmem : d ∉ s.stack.map Frame.deferred)
    (target : Option Nat) : Flow (attach s d target) := by
  have hnew (d' c : Nat) (hc : c ∈ s.attached d') : c ≠ s.count := Nat.ne_of_lt (hs.child d' c hc).2
  rw [Deferreds.attach]
  refine Queues.flush ⟨hs.ok, hs.nodup, hs.done, ?_, ?_, hs.unfired, hs.value, ?_, ?_, ?_⟩ hmem ?_
  · intro d'
    have horder := hs.order d'
    dsimp only
    by_cases heq : d' = d
    · rw [heq, taskOf_of_not_mem hmem, pending, if_pos rfl] at horder
      rw [heq, Function.update_self, Function.update_self, taskOf_of_not_mem hmem, pending,
        if_pos rfl, horder, List.append_assoc]
      rfl
    · rw [Function.update_of_ne heq, Function.update_of_ne heq]
      exact horder
  · intro f hf i t ht
    have hne : f.deferred ≠ d := fun heq => hmem (heq ▸ List.mem_map_of_mem hf)
    dsimp only
    rw [Function.update_of_ne hne]
    exact hs.busy f hf i t ht
  · intro d' c hc
    dsimp only at hc ⊢
    have hold (hc : c ∈ s.attached d') :
        Function.update s.parent s.count (some d) c = some d' ∧ c < s.count + 1 := by
      rw [Function.update_of_ne (hnew d' c hc)]
      exact ⟨(hs.child d' c hc).1, Nat.lt_succ_of_lt (hs.child d' c hc).2⟩
    by_cases heq : d' = d
    · rw [heq, Function.update_self] at hc
      rcases List.mem_append.mp hc with hc | hc
      · exact hold (heq ▸ hc)
      · rw [List.mem_singleton.mp hc, Function.update_self, heq]
        exact ⟨rfl, Nat.lt_succ_self _⟩
    · rw [Function.update_of_ne heq] at hc
      exact hold hc
  · intro d'
    dsimp only
    by_cases heq : d' = d
    · rw [heq, Function.update_self]
      refine List.nodup_append.mpr ⟨hs.distinct d, List.nodup_singleton _, ?_⟩
      intro c hc c' hc'
      rw [List.mem_singleton.mp hc']
      exact hnew d c hc
    · rw [Function.update_of_ne heq]
      exact hs.distinct d'
  · intro m hm
    dsimp only at hm ⊢
    obtain ⟨hfinished, hattached, hparent⟩ := hs.known m (Nat.le_of_succ_le hm)
    rw [Function.update_of_ne (Nat.ne_of_gt (Nat.lt_of_lt_of_le hd (Nat.le_of_succ_le hm))),
      Function.update_of_ne (Nat.ne_of_gt hm)]
    exact ⟨hfinished, hattached, hparent⟩
  · intro d' hd' hfinished hstack
    dsimp only
    rw [Function.update_of_ne hd']
    exact hs.empty d' hfinished hstack

/-- The frames below the first one belong to others. -/
theorem Flow.ne_of_mem_rest (hs : Flow s) (hstack : s.stack = ⟨d, t⟩ :: rest) :
    ∀ f ∈ rest, f.deferred ≠ d := by
  have hnodup := hs.nodup
  rw [hstack, List.map_cons, List.nodup_cons] at hnodup
  exact fun f hf heq => hnodup.1 (List.mem_map.mpr ⟨f, hf, heq⟩)

/-- The first frame gets another task, where the children that have been called and those that wait
stay the same. -/
theorem Flow.retop (hs : Flow s) (hstack : s.stack = ⟨d, t⟩ :: rest) {s' : State α}
    {t' : Option (Nat × Task)} (hstack' : s'.stack = ⟨d, t'⟩ :: rest)
    (hsame : s'.failed = s.failed ∧ s'.count = s.count ∧ s'.finished = s.finished ∧
      s'.parent = s.parent ∧ s'.attached = s.attached)
    (hqueue : ∀ d', d' ≠ d → s'.queue d' = s.queue d' ∧ s'.fired d' = s.fired d')
    (horder : s.attached d = s'.called d ++ pending t' (s'.queue d))
    (hbusy : ∀ i u, t' = some (i, u) → (∃ q, s'.queue d = i :: q) ∧ i ∈ s'.called d)
    (hvalue : ∀ x ∈ s'.fired d, s.finished d = some (x.kind, x.value)) : Flow s' := by
  obtain ⟨hfailed, hcount, hfinished, hparent, hattached⟩ := hsame
  have hrest := hs.ne_of_mem_rest hstack
  have hdone : s.finished d ≠ none := hs.done ⟨d, t⟩ (hstack ▸ List.mem_cons_self)
  have hcalled (d' : Nat) (hd' : d' ≠ d) : s'.called d' = s.called d' := by
    rw [State.called, State.called, (hqueue d' hd').2]
  refine ⟨⟨hfailed ▸ hs.ok, ?_, ?_, ?_, ?_, ?_, ?_, ?_, ?_, ?_⟩, ?_⟩
  · have hnodup := hs.nodup
    rw [hstack] at hnodup
    rw [hstack']
    exact hnodup
  · rw [hstack', hfinished]
    intro f hf
    rcases List.mem_cons.mp hf with rfl | hf
    · exact hdone
    · exact hs.done f (hstack ▸ List.mem_cons_of_mem _ hf)
  · intro d'
    rw [hattached, hstack']
    by_cases hd' : d' = d
    · rw [hd', taskOf_cons_self]
      exact horder
    · have hold := hs.order d'
      rw [hstack, taskOf_cons_of_ne hd'] at hold
      rw [taskOf_cons_of_ne hd', hcalled d' hd', (hqueue d' hd').1]
      exact hold
  · rw [hstack']
    intro f hf i u hu
    rcases List.mem_cons.mp hf with rfl | hf
    · exact hbusy i u hu
    · rw [hcalled _ (hrest f hf), (hqueue _ (hrest f hf)).1]
      exact hs.busy f (hstack ▸ List.mem_cons_of_mem _ hf) i u hu
  · rw [hfinished]
    intro d' hd'
    by_cases heq : d' = d
    · exact absurd (heq ▸ hd') hdone
    · rw [(hqueue d' heq).2]
      exact hs.unfired d' hd'
  · rw [hfinished]
    intro d' x hx
    by_cases heq : d' = d
    · rw [heq] at hx ⊢
      exact hvalue x hx
    · rw [(hqueue d' heq).2] at hx
      exact hs.value d' x hx
  · rw [hattached, hparent, hcount]
    exact hs.child
  · rw [hattached]
    exact hs.distinct
  · rw [hcount, hfinished, hattached, hparent]
    exact hs.known
  · rw [hfinished, hstack']
    intro d' hd' hmem
    rw [List.map_cons, List.mem_cons, not_or] at hmem
    rw [(hqueue d' hmem.1).1]
    refine hs.empty d' hd' ?_
    rw [hstack, List.map_cons, List.mem_cons, not_or]
    exact hmem

/-- A handler is called. -/
theorem Flow.fire (hs : Flow s) (hstack : s.stack = ⟨d, none⟩ :: rest)
    (hfinished : s.finished d = some (kind, value)) {q : List Nat} (hqueue : s.queue d = h :: q)
    (task : Task) : Flow (fire s d h kind value task rest) := by
  have horder := hs.order d
  have hcalled : (Deferreds.fire s d h kind value task rest).called d = s.called d ++ [h] := by
    rw [State.called, Deferreds.fire]
    dsimp only
    rw [Function.update_self, List.map_append]
    rfl
  rw [hstack, taskOf_cons_self, pending, if_pos rfl, hqueue] at horder
  refine hs.retop hstack rfl ⟨rfl, rfl, rfl, rfl, rfl⟩ (fun d' hd' => ?_) ?_ ?_ ?_
  · exact ⟨rfl, Function.update_of_ne hd' ..⟩
  · have hsame : (Deferreds.fire s d h kind value task rest).queue d = h :: q := hqueue
    rw [hcalled, hsame, pending, if_neg nofun, horder, List.append_assoc]
    rfl
  · intro i u hu
    cases hu
    refine ⟨⟨q, hqueue⟩, ?_⟩
    rw [hcalled]
    exact List.mem_append_right _ List.mem_cons_self
  · intro x hx
    rw [Deferreds.fire] at hx
    dsimp only at hx
    rw [Function.update_self] at hx
    rcases List.mem_append.mp hx with hx | hx
    · exact hs.value d x hx
    · rw [List.mem_singleton.mp hx]
      exact hfinished

/-- The head is removed. -/
theorem Flow.drop (hs : Flow s) {u : Task} (hstack : s.stack = ⟨d, some (h, u)⟩ :: rest) :
    Flow { s with
      queue := Function.update s.queue d (s.queue d).tail
      stack := ⟨d, none⟩ :: rest } := by
  have horder := hs.order d
  rw [hstack, taskOf_cons_self, pending, if_neg nofun] at horder
  refine hs.retop hstack rfl ⟨rfl, rfl, rfl, rfl, rfl⟩ (fun d' hd' => ?_) ?_ ?_ (hs.value d)
  · exact ⟨Function.update_of_ne hd' .., rfl⟩
  · dsimp only
    rw [Function.update_self, pending, if_pos rfl]
    exact horder
  · exact fun _ _ hu => absurd hu nofun

/-- A handler has returned. -/
theorem Flow.dropping (hs : Flow s) {u : Task} (hstack : s.stack = ⟨d, some (h, u)⟩ :: rest)
    (returned : Nat → Option (Result α)) :
    Flow { s with stack := ⟨d, some (h, .dropping)⟩ :: rest, returned := returned } := by
  have horder := hs.order d
  have hbusy := hs.busy ⟨d, some (h, u)⟩ (hstack ▸ List.mem_cons_self) h u rfl
  rw [hstack, taskOf_cons_self] at horder
  refine hs.retop hstack rfl ⟨rfl, rfl, rfl, rfl, rfl⟩ (fun _ _ => ⟨rfl, rfl⟩) horder ?_
    (hs.value d)
  intro i u' hu'
  cases hu'
  exact hbusy

/-- A loop ends. -/
theorem Flow.pop (hs : Flow s) (hstack : s.stack = ⟨d, none⟩ :: rest) (hqueue : s.queue d = []) :
    Flow { s with stack := rest } := by
  have hnodup := hs.nodup
  rw [hstack, List.map_cons, List.nodup_cons] at hnodup
  have hmem (f : Frame) (hf : f ∈ rest) : f ∈ s.stack := hstack ▸ List.mem_cons_of_mem _ hf
  refine ⟨⟨hs.ok, hnodup.2, fun f hf => hs.done f (hmem f hf), fun d' => ?_,
    fun f hf => hs.busy f (hmem f hf), hs.unfired, hs.value, hs.child, hs.distinct, hs.known⟩,
    fun d' hd' hmem' => ?_⟩
  · have horder := hs.order d'
    rw [hstack] at horder
    dsimp only
    by_cases heq : d' = d
    · rw [heq, taskOf_cons_self] at horder
      rw [heq, taskOf_of_not_mem hnodup.1]
      exact horder
    · rw [taskOf_cons_of_ne heq] at horder
      exact horder
  · by_cases heq : d' = d
    · rw [heq]
      exact hqueue
    · refine hs.empty d' hd' ?_
      rw [hstack, List.map_cons, List.mem_cons, not_or]
      exact ⟨heq, hmem'⟩

/-- A deferred is made. -/
theorem Flow.new (hs : Flow s) : Flow { s with count := s.count + 1 } :=
  ⟨⟨hs.ok, hs.nodup, hs.done, hs.order, hs.busy, hs.unfired, hs.value,
    fun d c hc => ⟨(hs.child d c hc).1, Nat.lt_succ_of_lt (hs.child d c hc).2⟩, hs.distinct,
    fun n hn => hs.known n (Nat.le_of_succ_le hn)⟩, hs.empty⟩

end Steps

end Deferreds

end Zuckerserv
