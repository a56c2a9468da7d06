import Mathlib.Logic.Function.Basic
import Zuckerserv.Lib.LuaTable
import Zuckerserv.Lib.Machine

/-!
# The listeners of events

The scripts register handlers of events, and cancel them by the function that the registration
returns. A registration keeps a connection: the list of listeners and the position in it. The
function keeps the number of the connection.

* `addListener`, `removeListener` — registration and cancellation.
* `Registered` — every event has the listeners that are registered for it.
* `InPlace` — the handler that is cancelled stands where it was put.
* `listeners_registered` — the listeners are the registered ones as long as only such handlers are
  cancelled.
-/

namespace Zuckerserv

namespace Listeners

open Machine

variable {κ φ : Type} [DecidableEq κ]

/-! ## Registration -/

/-- A registration: the function that it returns knows the number of a connection. What else there
is to say of it is kept for the record. -/
structure Handler (κ φ : Type) where
  event : κ
  listener : φ
  connectionId : Nat
  /-- Where the connection is. -/
  slot : Nat
  /-- The position that the connection keeps. -/
  index : Nat
  cancelled : Bool

/-- The lists of listeners by event, the connections, and the registrations in their order. -/
structure State (κ φ : Type) where
  listeners : κ → Option (List φ)
  connections : Nat → Option (κ × Nat)
  handlers : List (Handler κ φ)

/-- `add_listener(event_id, listener_function)`. The connections may have holes: `first` and
`second` are what `#connections` is before and after the connection is put there. -/
def addListener (s : State κ φ) (event_id : κ) (listener_function : φ) (first second : Nat) :
    State κ φ :=
  match s.listeners event_id with
  | none => s
  | some listeners =>
    let listeners := listeners ++ [listener_function]
    { listeners := Function.update s.listeners event_id (some listeners)
      connections := Function.update s.connections (first + 1) (some (event_id, listeners.length))
      handlers := s.handlers ++
        [⟨event_id, listener_function, second, first + 1, listeners.length, false⟩] }

/-- `remove_listener(connection_id)`. -/
def removeListener (s : State κ φ) (connectionId : Nat) : State κ φ :=
  match s.connections connectionId with
  | none => s
  | some connection =>
    { s with
      listeners := Function.update s.listeners connection.1
        ((s.listeners connection.1).map (LuaTable.remove · connection.2))
      connections := Function.update s.connections connectionId none }

/-- The function that the registration `r` returned is called. -/
def cancel (s : State κ φ) (r : Nat) : State κ φ :=
  match s.handlers[r]? with
  | none => s
  | some h =>
    let s := removeListener s h.connectionId
    { s with handlers := s.handlers.set r { h with cancelled := true } }

/-- What a script does. A module that is unloaded cancels its handlers one after the other, also
those that it has cancelled before. -/
inductive Action (κ φ : Type)
  | add (event_id : κ) (listener_function : φ) (first second : Nat)
  | cancel (r : Nat)

/-- One step of the scripts. -/
def step (s : State κ φ) : Action κ φ → State κ φ
  | .add event_id listener_function first second =>
    addListener s event_id listener_function first second
  | .cancel r => cancel s r

/-- The events that there are, before a handler is registered. -/
def start (events : κ → Bool) : State κ φ :=
  ⟨fun e => if events e then some [] else none, fun _ => none, []⟩

/-! ## What is registered -/

/-- The listeners that are registered for an event and not cancelled yet, in the order of
registration. -/
def live (hs : List (Handler κ φ)) (e : κ) : List φ :=
  hs.filterMap fun h => if h.event = e ∧ h.cancelled = false then some h.listener else none

/-- Every event has the listeners that are registered for it. -/
def Registered (s : State κ φ) : Prop :=
  ∀ e l, s.listeners e = some l → l = live s.handlers e

/-- The handler that is cancelled has its connection, and stands where it was put: no handler that
was registered for its event before has been cancelled since. A handler that is cancelled again
has no successor at its connection. -/
def InPlace (s : State κ φ) : Action κ φ → Prop
  | .add .. => True
  | .cancel r => ∀ h, s.handlers[r]? = some h →
      h.connectionId = h.slot ∧ h.slot ∉ (s.handlers.map (·.slot)).drop (r + 1) ∧
        (h.cancelled = false → h.index = (live (s.handlers.take r) h.event).length + 1)

/-! ## One step -/

/-- The listeners are the registered ones, and the connections are those of the handlers. -/
structure Kept (s : State κ φ) : Prop where
  registered : Registered s
  connected : ∀ r h, s.handlers[r]? = some h →
    h.slot ∉ (s.handlers.map (·.slot)).drop (r + 1) →
      s.connections h.slot = if h.cancelled then none else some (h.event, h.index)

theorem live_append (hs hs' : List (Handler κ φ)) (e : κ) :
    live (hs ++ hs') e = live hs e ++ live hs' e := List.filterMap_append

theorem live_cons (h : Handler κ φ) (hs : List (Handler κ φ)) (e : κ) :
    live (h :: hs) e =
      (if h.event = e ∧ h.cancelled = false then [h.listener] else []) ++ live hs e := by
  unfold live
  rw [List.filterMap_cons]
  split <;> split at * <;> simp_all

variable {s : State κ φ} {e : κ} {r : Nat}

/-- A registration. -/
theorem Kept.add (hs : Kept s) (e : κ) (f : φ) (first second : Nat) :
    Kept (addListener s e f first second) := by
  unfold addListener
  split
  · exact hs
  · rename_i listeners hlisteners
    have hlive := hs.registered e listeners hlisteners
    refine ⟨fun e' l hl => ?_, fun r h hr hlast => ?_⟩
    · rw [live_append, live_cons]
      dsimp only at hl ⊢
      by_cases he : e = e'
      · subst he
        rw [Function.update_self] at hl
        rw [← Option.some.inj hl, ← hlive, if_pos ⟨rfl, rfl⟩]
        rfl
      · rw [Function.update_of_ne (Ne.symm he)] at hl
        rw [if_neg fun h => he h.1, ← hs.registered e' l hl]
        exact (List.append_nil l).symm
    · dsimp only at hr hlast ⊢
      rw [List.map_append] at hlast
      rcases Nat.lt_or_ge r s.handlers.length with hlt | hge
      · rw [List.getElem?_append_left hlt] at hr
        rw [List.drop_append_of_le_length (by rw [List.length_map]; exact hlt)] at hlast
        obtain ⟨hold, hnew⟩ := not_or.mp (mt List.mem_append.mpr hlast)
        rw [Function.update_of_ne fun hslot => hnew (List.mem_singleton.mpr hslot)]
        exact hs.connected r h hr hold
      · rw [List.getElem?_append_right hge] at hr
        have hh := List.mem_singleton.mp (List.mem_of_getElem? hr)
        rw [hh]
        exact Function.update_self ..

/-- The connections after a cancellation. -/
theorem removeListener_connections (s : State κ φ) (id : Nat) :
    (removeListener s id).connections = Function.update s.connections id none := by
  unfold removeListener
  split
  · rename_i hnone
    exact (Function.update_eq_self_iff.mpr hnone.symm).symm
  · rfl

/-- The listeners after a cancellation of a handler in its place. -/
theorem Kept.cancel_registered (hs : Kept s) (hplace : InPlace s (.cancel r)) :
    Registered (cancel s r) := by
  unfold cancel
  split
  · exact hs.registered
  · rename_i h hr
    obtain ⟨hid, hlast, hindex⟩ := hplace h hr
    have hconnection := hs.connected r h hr hlast
    unfold removeListener
    rw [hid, hconnection]
    have hsplit (e' : κ) : live s.handlers e' =
        live (s.handlers.take r) e' ++
          ((if h.event = e' ∧ h.cancelled = false then [h.listener] else []) ++
            live (s.handlers.drop (r + 1)) e') := by
      rw [← live_cons, ← live_append, ← LuaTable.split_at hr]
    intro e' l hl
    cases hcancelled : h.cancelled with
    | true =>
      rw [hcancelled, if_pos rfl] at hl
      have hsame := hs.registered e' l hl
      rw [hsplit, hcancelled, if_neg fun h => Bool.noConfusion h.2] at hsame
      dsimp only
      rw [if_pos rfl, LuaTable.set_split hr, live_append, live_cons,
        if_neg fun h => Bool.noConfusion h.2]
      exact hsame
    | false =>
      rw [hcancelled, if_neg Bool.false_ne_true] at hl
      dsimp only at hl ⊢
      rw [if_neg Bool.false_ne_true]
      dsimp only
      rw [LuaTable.set_split hr, live_append, live_cons, if_neg fun h => Bool.noConfusion h.2]
      by_cases he : h.event = e'
      · subst he
        rw [Function.update_self] at hl
        obtain ⟨l', hl', rfl⟩ := Option.map_eq_some_iff.mp hl
        have hsame := hs.registered _ l' hl'
        rw [hsplit, hcancelled, if_pos ⟨rfl, rfl⟩] at hsame
        rw [hsame, hindex hcancelled]
        exact LuaTable.remove_append _ _ _
      · rw [Function.update_of_ne (Ne.symm he)] at hl
        have hsame := hs.registered e' l hl
        rw [hsplit, if_neg fun h => he h.1] at hsame
        exact hsame

/-- A cancellation of a handler in its place. -/
theorem Kept.cancel (hs : Kept s) (hplace : InPlace s (.cancel r)) : Kept (cancel s r) := by
  refine ⟨hs.cancel_registered hplace, fun r' h' hr' hlast' => ?_⟩
  unfold Listeners.cancel at hr' hlast' ⊢
  split at hr'
  · rename_i hnone
    rw [hnone] at hlast'
    exact hs.connected r' h' hr' hlast'
  · rename_i h hr
    obtain ⟨hid, hlast, -⟩ := hplace h hr
    rw [hr] at hlast'
    have hhandlers : (removeListener s h.connectionId).handlers = s.handlers := by
      unfold removeListener
      split <;> rfl
    dsimp only at hr' hlast' ⊢
    rw [hhandlers] at hr' hlast'
    rw [LuaTable.map_set_of_eq (b := { h with cancelled := true }) hr rfl] at hlast'
    rw [removeListener_connections, hid]
    by_cases hsame : r = r'
    · subst hsame
      have hh' : h' = { h with cancelled := true } := by
        rw [List.getElem?_set_self (List.getElem?_eq_some_iff.mp hr).1] at hr'
        exact (Option.some.inj hr').symm
      rw [hh']
      exact Function.update_self ..
    · rw [List.getElem?_set_ne hsame] at hr'
      have hslot {i : Nat} {g : Handler κ φ} (hg : s.handlers[i]? = some g) :
          (s.handlers.map (·.slot))[i]? = some g.slot := by
        rw [List.getElem?_map, hg]
        rfl
      have hne : h'.slot ≠ h.slot := by
        intro heq
        rcases Nat.lt_or_gt_of_ne hsame with hlt | hgt
        · exact hlast (heq ▸ LuaTable.mem_drop (hslot hr') hlt)
        · exact hlast' (heq ▸ LuaTable.mem_drop (hslot hr) hgt)
      rw [Function.update_of_ne hne]
      exact hs.connected r' h' hr' hlast'

theorem Kept.step (s : State κ φ) (a : Action κ φ) (ha : InPlace s a) (hs : Kept s) :
    Kept (step s a) := by
  cases a with
  | add e f first second => exact hs.add e f first second
  | cancel r => exact hs.cancel ha

/-! ## Every run -/

/-- As long as every handler that is cancelled stands in its place, every event has the listeners
that are registered for it, in all states of the run. -/
theorem listeners_registered (events : κ → Bool) (as : List (Action κ φ))
    (has : Along InPlace step (start events) as) :
    ∀ bs cs, as = bs ++ cs → Registered (Machine.run step (start events) bs) := by
  rintro bs cs rfl
  have hstart : Kept (start (φ := φ) events) := by
    refine ⟨fun e l hl => ?_, fun r h hr => absurd hr (by simp [start])⟩
    unfold start at hl
    dsimp only at hl
    split at hl
    · exact (Option.some.inj hl).symm
    · exact absurd hl (by simp)
  exact ((along_append.mp has).1.inv Kept.step hstart).registered

/-- Two handlers of the one event there is, cancelled in the order of their registration. -/
def twoHandlers : List (Action Unit Nat) := [.add () 1 0 1, .add () 2 1 2, .cancel 0, .cancel 1]

/-- The second one stays. -/
theorem second_stays :
    ¬ Registered (Machine.run step (start fun _ : Unit => true) twoHandlers) := by
  intro h
  exact absurd (h () [2] rfl) (by decide)

/-- The two handlers, cancelled in the opposite order. -/
theorem listeners_registered_reversed :
    Registered (Machine.run step (start fun _ : Unit => true)
      ([.add () 1 0 1, .add () 2 1 2, .cancel 1, .cancel 0] : List (Action Unit Nat))) := by
  refine listeners_registered _ _ ?_ _ [] rfl
  refine ⟨trivial, trivial, fun h hr => ?_, fun h hr => ?_, trivial⟩
  · cases hr
    exact ⟨rfl, by decide, fun _ => by decide⟩
  · cases hr
    exact ⟨rfl, by decide, fun _ => by decide⟩

end Listeners

end Zuckerserv
