import Mathlib.Data.List.Nodup
import Zuckerserv.Lib.LuaTable
import Zuckerserv.Lib.Machine

/-!
# The dispatch of an event

A dispatch goes through the list of the event's listeners by the index, and calls each one. While
a listener is called it may register and remove listeners, also itself, and dispatch the event
again.

* `act` — what a listener does to the list.
* `turn` — one turn of the loop.
* `Served` — the listeners have been called in their order, each at its turn.
* `dispatch_iff` — when a dispatch serves its listeners.
-/

namespace Zuckerserv

namespace Dispatch

open Machine

variable {φ : Type} [DecidableEq φ]

/-! ## The listeners -/

/-- A registration of a listener. Functions are compared by their identity, and `once` makes a new
one every time: the handler of a registration by `once` has the number of the registration. -/
structure Entry (φ : Type) where
  id : Nat
  once : Bool
  callback : φ
  deriving DecidableEq

/-- An event. -/
structure Event (φ : Type) where
  listeners : List (Entry φ)
  /-- How many registrations there have been. -/
  fresh : Nat
  /-- The calls of all dispatches, for the record. -/
  calls : List (Entry φ)

/-- What a listener does to the event while it is called. -/
inductive Act (φ : Type)
  | on (callback : φ)
  | once (callback : φ)
  | remove (pos : Nat)
  | removeListener (callback : φ)
  /-- Another dispatch comes to the listener at the index. -/
  | call (index : Nat)

/-- A listener is put behind the others. -/
def register (s : Event φ) (once : Bool) (callback : φ) : Event φ :=
  { s with listeners := s.listeners ++ [⟨s.fresh, once, callback⟩], fresh := s.fresh + 1 }

/-- `remove_listener(event_name, callback)`, where `is` tells whether a listener is the callback:
the loop ends at the first one. -/
def removeFirst (s : Event φ) (is : Entry φ → Bool) : Event φ :=
  match s.listeners.findIdx? is with
  | none => s
  | some index => { s with listeners := LuaTable.remove s.listeners (index + 1) }

/-- One act. A handler that `once` made removes itself before it does anything else. -/
def act (s : Event φ) : Act φ → Event φ
  | .on callback => register s false callback
  | .once callback => register s true callback
  | .remove pos => { s with listeners := LuaTable.remove s.listeners pos }
  | .removeListener callback => removeFirst s fun e => !e.once && e.callback == callback
  | .call index =>
    match s.listeners[index]? with
    | none => s
    | some e =>
      let s := { s with calls := s.calls ++ [e] }
      if e.once then removeFirst s fun x => x.once && x.id == e.id else s

/-- The event before there are listeners. -/
def empty : Event φ := ⟨[], 0, []⟩

/-! ## The loop -/

/-- A dispatch that is going on: the event, the index of the loop, and the listeners it has called.
For the record, the listeners from its beginning are kept whose turn is still to come, and those
whose turn has been. -/
structure Loop (φ : Type) where
  event : Event φ
  index : Nat
  called : List (Entry φ)
  pending : List (Entry φ)
  turns : List (Entry φ)

/-- The listeners from the beginning whose turn is still to come, and that are not removed. -/
def Loop.waiting (d : Loop φ) : List (Entry φ) :=
  d.pending.filter fun e => decide (e ∈ d.event.listeners)

/-- The beginning of `emit(event_name)`, `trigger_event(event_id)` or the operator of the event. -/
def start (s : Event φ) : Loop φ := ⟨s, 0, [], s.listeners, []⟩

/-- One turn of the loop, where `as` is what is done while the listener is called. It is the turn
of the first listener that waits, whichever is called. -/
def turn (d : Loop φ) (as : List (Act φ)) : Loop φ :=
  match d.event.listeners[d.index]? with
  | none => d
  | some e =>
    { event := Machine.run act d.event (.call d.index :: as)
      index := d.index + 1
      called := d.called ++ [e]
      pending := d.waiting.tail
      turns := d.turns ++ d.waiting.head?.toList }

/-- The loop is over. -/
def Loop.Finished (d : Loop φ) : Prop := d.event.listeners.length ≤ d.index

/-- Of the listeners from the beginning, those have been called whose turn has been, each once and
in their order, and none is left. -/
def Served (s : Event φ) (d : Loop φ) : Prop :=
  d.called.filter (fun e => decide (e ∈ s.listeners)) = d.turns ++ d.waiting

/-- While the listener is called, none of those up to it is removed, itself included, unless
afterwards no listener waits. -/
def Undisturbed (d : Loop φ) (as : List (Act φ)) : Prop :=
  ∀ e, d.event.listeners[d.index]? = some e →
    (∀ x ∈ d.event.listeners.take (d.index + 1), x ∈ (turn d as).event.listeners) ∨
      (turn d as).waiting = []

/-! ## The acts -/

/-- The listeners are different registrations of the past, and no handler that `once` made is
called twice. -/
structure Event.Valid (s : Event φ) : Prop where
  nodup : (s.listeners.map (·.id)).Nodup
  listeners : ∀ e ∈ s.listeners, e.id < s.fresh
  calls : ∀ e ∈ s.calls, e.id < s.fresh
  once : ∀ e ∈ s.calls, e.once = true → s.calls.count e = 1 ∧ e ∉ s.listeners

/-- Some listeners are gone, and new ones have come behind the others. -/
def Follows (s s' : Event φ) : Prop :=
  s.fresh ≤ s'.fresh ∧ ∃ (stays : Entry φ → Bool) (new : List (Entry φ)),
    s'.listeners = s.listeners.filter stays ++ new ∧ ∀ e ∈ new, s.fresh ≤ e.id

variable {s s' s'' : Event φ}

omit [DecidableEq φ] in
theorem Follows.refl (s : Event φ) : Follows s s := by
  refine ⟨Nat.le_refl _, fun _ => true, [], ?_, by simp⟩
  rw [List.filter_true, List.append_nil]

omit [DecidableEq φ] in
theorem Follows.trans (h : Follows s s') (h' : Follows s' s'') : Follows s s'' := by
  obtain ⟨hfresh, stays, new, hlisteners, hnew⟩ := h
  obtain ⟨hfresh', stays', new', hlisteners', hnew'⟩ := h'
  refine ⟨Nat.le_trans hfresh hfresh', fun e => stays e && stays' e, new.filter stays' ++ new',
    ?_, fun e he => ?_⟩
  · rw [hlisteners', hlisteners, List.filter_append, List.filter_filter, List.append_assoc]
    simp only [Bool.and_comm]
  · rcases List.mem_append.mp he with hold | hlater
    · exact hnew e (List.mem_of_mem_filter hold)
    · exact Nat.le_trans hfresh (hnew' e hlater)

/-- A removal by position takes some listeners away. -/
theorem remove_eq_filter {l : List (Entry φ)} (hl : l.Nodup) (pos : Nat) :
    ∃ stays, LuaTable.remove l pos = l.filter stays := by
  unfold LuaTable.remove
  split
  · rename_i hpos
    have hlt : pos - 1 < l.length := by omega
    refine ⟨fun x => x != l[pos - 1], ?_⟩
    rw [← hl.erase_eq_filter, hl.erase_getElem]
  · exact ⟨fun _ => true, (List.filter_true _).symm⟩

theorem removeFirst_eq_filter (hs : s.listeners.Nodup) (is : Entry φ → Bool) :
    ∃ stays, removeFirst s is = { s with listeners := s.listeners.filter stays } := by
  unfold removeFirst
  split
  · exact ⟨fun _ => true, by rw [List.filter_true]⟩
  · rename_i index _
    obtain ⟨stays, hstays⟩ := remove_eq_filter hs (index + 1)
    exact ⟨stays, by rw [hstays]⟩

/-- The removal of the one listener that is the callback. -/
theorem not_mem_removeFirst (hs : s.listeners.Nodup) {is : Entry φ → Bool} {e : Entry φ}
    (he : e ∈ s.listeners) (his : is e = true) (hone : ∀ x ∈ s.listeners, is x = true → x = e) :
    e ∉ (removeFirst s is).listeners := by
  unfold removeFirst
  split
  · rename_i hnone
    exact absurd his (by rw [List.findIdx?_eq_none_iff.mp hnone e he]; exact Bool.false_ne_true)
  · rename_i index hindex
    obtain ⟨hlt, hat, -⟩ := List.findIdx?_eq_some_iff_getElem.mp hindex
    have hsame := hone _ (List.getElem_mem hlt) hat
    have hrange : 1 ≤ index + 1 ∧ index + 1 ≤ s.listeners.length := by omega
    dsimp only
    rw [LuaTable.remove, if_pos hrange, Nat.add_sub_cancel, ← hs.erase_getElem index hlt, hsame]
    exact hs.not_mem_erase

theorem Event.Valid.listeners_nodup (h : s.Valid) : s.listeners.Nodup := h.nodup.of_map _

/-- Registrations with the same number are the same. -/
theorem Event.Valid.eq_of_id (h : s.Valid) {x y : Entry φ} (hx : x ∈ s.listeners)
    (hy : y ∈ s.listeners) (hid : x.id = y.id) : x = y :=
  List.inj_on_of_nodup_map h.nodup hx hy hid

/-- A registration. -/
theorem Event.Valid.register (h : s.Valid) (once : Bool) (callback : φ) :
    (register s once callback).Valid := by
  have hne {e : Entry φ} (he : e.id < s.fresh) : e ≠ ⟨s.fresh, once, callback⟩ := by
    rintro rfl
    exact Nat.lt_irrefl _ he
  refine ⟨?_, fun e he => ?_, fun e he => Nat.lt_succ_of_lt (h.calls e he), fun e he honce => ?_⟩
  · unfold Dispatch.register
    rw [List.map_append, List.nodup_append]
    refine ⟨h.nodup, List.nodup_singleton _, ?_⟩
    intro a ha b hb
    obtain ⟨e, he, rfl⟩ := List.mem_map.mp ha
    rw [List.mem_singleton.mp hb]
    exact Nat.ne_of_lt (h.listeners e he)
  · rcases List.mem_append.mp he with hold | hnew
    · exact Nat.lt_succ_of_lt (h.listeners e hold)
    · rw [List.mem_singleton.mp hnew]
      exact Nat.lt_succ_self _
  · obtain ⟨hcount, hgone⟩ := h.once e he honce
    refine ⟨hcount, fun hmem => ?_⟩
    rcases List.mem_append.mp hmem with hold | hnew
    · exact hgone hold
    · exact hne (h.calls e he) (List.mem_singleton.mp hnew)

/-- A removal. -/
theorem Event.Valid.filter (h : s.Valid) (stays : Entry φ → Bool) :
    Event.Valid { s with listeners := s.listeners.filter stays } := by
  refine ⟨(List.filter_sublist.map _).nodup h.nodup,
    fun e he => h.listeners e (List.mem_of_mem_filter he), h.calls, fun e he honce => ?_⟩
  obtain ⟨hcount, hgone⟩ := h.once e he honce
  exact ⟨hcount, fun hmem => hgone (List.mem_of_mem_filter hmem)⟩

theorem Event.Valid.removeFirst (h : s.Valid) (is : Entry φ → Bool) :
    (removeFirst s is).Valid := by
  obtain ⟨stays, hstays⟩ := removeFirst_eq_filter h.listeners_nodup is
  rw [hstays]
  exact h.filter stays

/-- A listener is called. -/
theorem Event.Valid.call (h : s.Valid) (index : Nat) : (act s (.call index)).Valid := by
  unfold act
  dsimp only
  split
  · exact h
  · rename_i e hat
    have hmem : e ∈ s.listeners := List.mem_of_getElem? hat
    have hcalls (x : Entry φ) (hx : x ∈ s.calls ++ [e]) : x.id < s.fresh := by
      rcases List.mem_append.mp hx with hold | hnew
      · exact h.calls x hold
      · rw [List.mem_singleton.mp hnew]
        exact h.listeners e hmem
    have hold (x : Entry φ) (hx : x ∈ s.calls) (honce : x.once = true) :
        (s.calls ++ [e]).count x = 1 ∧ x ∉ s.listeners := by
      obtain ⟨hcount, hgone⟩ := h.once x hx honce
      refine ⟨?_, hgone⟩
      have hne : e ≠ x := fun heq => hgone (heq ▸ hmem)
      rw [List.count_append, hcount, List.count_singleton, beq_eq_false_iff_ne.mpr hne]
      rfl
    split
    · rename_i honce
      have hgone : e ∉ (Dispatch.removeFirst { s with calls := s.calls ++ [e] }
          fun x => x.once && x.id == e.id).listeners := by
        refine not_mem_removeFirst (s := { s with calls := s.calls ++ [e] }) h.listeners_nodup
          hmem (by rw [honce, beq_self_eq_true]; rfl) fun x hx hxe => ?_
        exact h.eq_of_id hx hmem (beq_iff_eq.mp (Bool.and_eq_true_iff.mp hxe).2)
      obtain ⟨stays, hstays⟩ := removeFirst_eq_filter (s := { s with calls := s.calls ++ [e] })
        h.listeners_nodup fun x => x.once && x.id == e.id
      rw [hstays] at hgone ⊢
      refine ⟨(List.filter_sublist.map _).nodup h.nodup,
        fun x hx => h.listeners x (List.mem_of_mem_filter hx), hcalls, fun x hx hxonce => ?_⟩
      by_cases hbefore : x ∈ s.calls
      · obtain ⟨hcount, hnot⟩ := hold x hbefore hxonce
        exact ⟨hcount, fun hx => hnot (List.mem_of_mem_filter hx)⟩
      · rcases List.mem_append.mp hx with hx | hx
        · exact absurd hx hbefore
        · rw [List.mem_singleton.mp hx] at hbefore ⊢
          refine ⟨?_, hgone⟩
          rw [List.count_append, List.count_eq_zero_of_not_mem hbefore, List.count_singleton_self]
    · rename_i honce
      refine ⟨h.nodup, h.listeners, hcalls, fun x hx hxonce => ?_⟩
      rcases List.mem_append.mp hx with hx | hx
      · exact hold x hx hxonce
      · rw [List.mem_singleton.mp hx] at hxonce
        exact absurd hxonce honce

/-- One act. -/
theorem Event.Valid.act (h : s.Valid) (a : Act φ) : (act s a).Valid := by
  cases a with
  | on callback => exact h.register false callback
  | once callback => exact h.register true callback
  | remove pos =>
    obtain ⟨stays, hstays⟩ := remove_eq_filter h.listeners_nodup pos
    unfold Dispatch.act
    dsimp only
    rw [hstays]
    exact h.filter stays
  | removeListener callback => exact h.removeFirst _
  | call index => exact h.call index

/-- What one act does to the list. -/
theorem follows_act (h : s.Valid) (a : Act φ) : Follows s (act s a) := by
  have hfilter (stays : Entry φ → Bool) (calls : List (Entry φ)) :
      Follows s { s with listeners := s.listeners.filter stays, calls := calls } :=
    ⟨Nat.le_refl _, stays, [], (List.append_nil _).symm, by simp⟩
  have hregister (once : Bool) (callback : φ) : Follows s (register s once callback) := by
    refine ⟨Nat.le_succ _, fun _ => true, [⟨s.fresh, once, callback⟩], ?_, fun e he => ?_⟩
    · rw [List.filter_true]
      rfl
    · have hid : e.id = s.fresh := congrArg Entry.id (List.mem_singleton.mp he)
      exact Nat.le_of_eq hid.symm
  cases a with
  | on callback => exact hregister false callback
  | once callback => exact hregister true callback
  | remove pos =>
    obtain ⟨stays, hstays⟩ := remove_eq_filter h.listeners_nodup pos
    unfold act
    dsimp only
    rw [hstays]
    exact hfilter stays s.calls
  | removeListener callback =>
    obtain ⟨stays, hstays⟩ := removeFirst_eq_filter h.listeners_nodup
      fun e => !e.once && e.callback == callback
    unfold act
    dsimp only
    rw [hstays]
    exact hfilter stays s.calls
  | call index =>
    unfold act
    dsimp only
    split
    · exact Follows.refl s
    · rename_i e _
      split
      · obtain ⟨stays, hstays⟩ := removeFirst_eq_filter (s := { s with calls := s.calls ++ [e] })
          h.listeners_nodup fun x => x.once && x.id == e.id
        rw [hstays]
        exact hfilter stays _
      · exact ⟨Nat.le_refl _, (Follows.refl s).2⟩

/-- What many acts do. -/
theorem follows_run (h : s.Valid) (as : List (Act φ)) :
    (Machine.run act s as).Valid ∧ Follows s (Machine.run act s as) := by
  refine Machine.run_inv (P := fun s' => s'.Valid ∧ Follows s s') ?_ ⟨h, Follows.refl s⟩ as
  intro s' a hs'
  exact ⟨hs'.1.act a, hs'.2.trans (follows_act hs'.1 a)⟩

theorem valid_empty : (empty : Event φ).Valid :=
  ⟨List.nodup_nil, by simp [empty], by simp [empty], by simp [empty]⟩

omit [DecidableEq φ] in
/-- The list at an index, before and after. -/
theorem Follows.split (h : Follows s s') (n : Nat) : ∃ (stays : Entry φ → Bool)
    (new : List (Entry φ)), s'.listeners = (s.listeners.take n).filter stays ++
      ((s.listeners.drop n).filter stays ++ new) ∧ (∀ e ∈ new, s.fresh ≤ e.id) ∧
      ∀ e ∈ s.listeners, e.id < s.fresh → (e ∈ s'.listeners ↔ stays e = true) := by
  obtain ⟨-, stays, new, hlisteners, hnew⟩ := h
  refine ⟨stays, new, ?_, hnew, fun e he hid => ?_⟩
  · rw [hlisteners, ← List.append_assoc, ← List.filter_append, List.take_append_drop]
  · rw [hlisteners, List.mem_append, List.mem_filter]
    constructor
    · rintro (hold | hlater)
      · exact hold.2
      · exact absurd (hnew e hlater) (Nat.not_le.mpr hid)
    · intro hstays
      exact .inl ⟨he, hstays⟩

omit [DecidableEq φ] in
/-- A listener of the past that is behind an index was there before. -/
theorem Follows.mem_drop (h : Follows s s') {e : Entry φ} (he : e.id < s.fresh) {n : Nat}
    (hmem : e ∈ s'.listeners.drop n) : e ∈ s.listeners.drop n := by
  obtain ⟨stays, new, hlisteners, hnew, -⟩ := h.split n
  have hlength : ((s.listeners.take n).filter stays).length ≤ n :=
    Nat.le_trans (List.length_filter_le _ _) (List.length_take_le n _)
  rw [hlisteners, List.drop_append, List.drop_of_length_le hlength, List.nil_append] at hmem
  rcases List.mem_append.mp (List.mem_of_mem_drop hmem) with hold | hlater
  · exact List.mem_of_mem_filter hold
  · exact absurd (hnew e hlater) (Nat.not_le.mpr he)

/-! ## One turn -/

variable {d : Loop φ} {as : List (Act φ)} {l : List (Entry φ)} {e : Entry φ}

theorem turn_none (h : d.event.listeners[d.index]? = none) : turn d as = d := by
  rw [turn, h]

theorem turn_some (h : d.event.listeners[d.index]? = some e) : turn d as =
    { event := Machine.run act d.event (.call d.index :: as)
      index := d.index + 1
      called := d.called ++ [e]
      pending := d.waiting.tail
      turns := d.turns ++ d.waiting.head?.toList } := by
  rw [turn, h]

/-- The event after a turn. -/
theorem turn_event (h : d.event.Valid) (as : List (Act φ)) :
    (turn d as).event.Valid ∧ Follows d.event (turn d as).event := by
  cases hat : d.event.listeners[d.index]? with
  | none =>
    rw [turn_none hat]
    exact ⟨h, Follows.refl _⟩
  | some e =>
    rw [turn_some hat]
    exact follows_run h _

/-- The dispatch has been in order: the listeners `l` from its beginning that have been called are
those whose turn has been, and those that wait are next. -/
structure Going (l : List (Entry φ)) (d : Loop φ) : Prop where
  valid : d.event.Valid
  old : ∀ e ∈ l, e.id < d.event.fresh
  order : (d.turns ++ d.pending).Sublist l
  called : d.called.filter (fun e => decide (e ∈ l)) = d.turns
  next : d.waiting <+: d.event.listeners.drop d.index
  rest : ∀ e ∈ l, e ∈ d.event.listeners.drop d.index → e ∈ d.waiting

theorem Going.mem_of_waiting (h : Going l d) (he : e ∈ d.waiting) : e ∈ l :=
  h.order.subset (List.mem_append_right _ (List.mem_of_mem_filter he))

/-- Nobody waits. -/
theorem Going.turn_nil (h : Going l d) (hat : d.event.listeners[d.index]? = some e)
    (hwaiting : d.waiting = []) : Going l (turn d as) ∧ (turn d as).waiting = [] := by
  obtain ⟨hvalid, hfollows⟩ := turn_event h.valid as
  have hnone : (turn d as).waiting = [] := by
    rw [Loop.waiting, turn_some hat, hwaiting]
    rfl
  have hnew : e ∉ l := by
    intro he
    have hmem := h.rest e he (LuaTable.mem_drop hat (Nat.le_refl _))
    rw [hwaiting] at hmem
    exact List.not_mem_nil hmem
  refine ⟨⟨hvalid, fun x hx => Nat.lt_of_lt_of_le (h.old x hx) hfollows.1, ?_, ?_, ?_, ?_⟩, hnone⟩
  · rw [turn_some hat, hwaiting]
    simp only [List.head?_nil, Option.toList_none, List.tail_nil, List.append_nil]
    exact (List.sublist_append_left _ _).trans h.order
  · rw [turn_some hat, hwaiting]
    simp only [List.filter_append, h.called, List.head?_nil, Option.toList_none]
    rw [List.filter_cons_of_neg (by simpa using hnew), List.filter_nil]
  · rw [hnone]
    exact List.nil_prefix
  · intro x hx hmem
    have hbefore := hfollows.mem_drop (h.old x hx) hmem
    rw [turn_some hat] at hbefore
    have hmem := h.rest x hx ((List.drop_sublist_drop_left _ (Nat.le_succ _)).subset hbefore)
    rw [hwaiting] at hmem
    exact absurd hmem List.not_mem_nil

/-- Where somebody waits, it is the first one that is called. -/
theorem Going.head (h : Going l d) (hat : d.event.listeners[d.index]? = some e) {w : Entry φ}
    {ws : List (Entry φ)} (hwaiting : d.waiting = w :: ws) :
    w = e ∧ ws <+: d.event.listeners.drop (d.index + 1) ∧
      e ∉ d.event.listeners.drop (d.index + 1) := by
  obtain ⟨hlt, hget⟩ := List.getElem?_eq_some_iff.mp hat
  have hdrop := List.drop_eq_getElem_cons hlt
  have hnext := h.next
  rw [hwaiting, hdrop, hget] at hnext
  obtain ⟨hhead, htail⟩ := List.cons_prefix_cons.mp hnext
  refine ⟨hhead, htail, ?_⟩
  have hnodup := h.valid.listeners_nodup.sublist (List.drop_sublist d.index _)
  rw [hdrop, hget] at hnodup
  exact (List.nodup_cons.mp hnodup).1

/-- Those who wait after the turn of the first one. -/
theorem waiting_turn (hat : d.event.listeners[d.index]? = some e) {w : Entry φ}
    {ws : List (Entry φ)} (hwaiting : d.waiting = w :: ws) :
    (turn d as).waiting = ws.filter fun x => decide (x ∈ (turn d as).event.listeners) := by
  rw [Loop.waiting, turn_some hat, hwaiting]
  rfl

/-- The parts of the list after the turn of the first one. -/
theorem Going.split (h : Going l d) (hat : d.event.listeners[d.index]? = some e) {w : Entry φ}
    {ws : List (Entry φ)} (hwaiting : d.waiting = w :: ws) (as : List (Act φ)) :
    ∃ (front back : List (Entry φ)), (turn d as).event.listeners = front ++ back ∧
      (turn d as).waiting <+: back ∧ front.length ≤ d.index + 1 ∧
      (front.length = d.index + 1 ↔
        ∀ x ∈ d.event.listeners.take (d.index + 1), x ∈ (turn d as).event.listeners) := by
  obtain ⟨hvalid, hfollows⟩ := turn_event h.valid as
  obtain ⟨stays, new, hlisteners, -, hstays⟩ := hfollows.split (d.index + 1)
  obtain ⟨rfl, htail, -⟩ := h.head hat hwaiting
  obtain ⟨hlt, -⟩ := List.getElem?_eq_some_iff.mp hat
  have htake : (d.event.listeners.take (d.index + 1)).length = d.index + 1 := by
    rw [List.length_take]
    omega
  refine ⟨_, _, hlisteners, ?_, ?_, ?_⟩
  · have hsame : (turn d as).waiting = ws.filter stays := by
      rw [waiting_turn hat hwaiting]
      refine List.filter_congr fun x hx => ?_
      have hmem := List.mem_of_mem_drop (htail.subset hx)
      rw [Bool.eq_iff_iff, decide_eq_true_iff, hstays x hmem (h.valid.listeners x hmem)]
    rw [hsame]
    exact (htail.filter stays).trans (List.prefix_append _ _)
  · exact Nat.le_trans (List.length_filter_le _ _) (Nat.le_of_eq htake)
  · constructor
    · intro hlength x hx
      have hall := List.length_filter_eq_length_iff.mp (hlength.trans htake.symm) x hx
      have hmem := List.mem_of_mem_take hx
      exact (hstays x hmem (h.valid.listeners x hmem)).mpr hall
    · intro hall
      refine (List.length_filter_eq_length_iff.mpr fun x hx => ?_).trans htake
      have hmem := List.mem_of_mem_take hx
      exact (hstays x hmem (h.valid.listeners x hmem)).mp (hall x hx)

/-- The turn of the first one that waits, where the others that wait stay next. -/
theorem Going.turn_cons (h : Going l d) (hat : d.event.listeners[d.index]? = some e) {w : Entry φ}
    {ws : List (Entry φ)} (hwaiting : d.waiting = w :: ws)
    (hnext : (turn d as).waiting <+: (turn d as).event.listeners.drop (turn d as).index) :
    Going l (turn d as) := by
  obtain ⟨hvalid, hfollows⟩ := turn_event h.valid as
  obtain ⟨rfl, htail, hlast⟩ := h.head hat hwaiting
  have hmem : w ∈ l := h.mem_of_waiting (by rw [hwaiting]; exact List.mem_cons_self)
  refine ⟨hvalid, fun x hx => Nat.lt_of_lt_of_le (h.old x hx) hfollows.1, ?_, ?_, hnext, ?_⟩
  · rw [turn_some hat, hwaiting]
    refine List.Sublist.trans ?_ h.order
    have hsublist : d.waiting.Sublist d.pending := List.filter_sublist
    rw [hwaiting] at hsublist
    simpa using hsublist.append_left d.turns
  · rw [turn_some hat, hwaiting]
    simp only [List.filter_append, h.called, List.head?_cons, Option.toList_some]
    rw [List.filter_cons_of_pos (by simpa using hmem), List.filter_nil]
  · intro x hx hafter
    have hbefore := hfollows.mem_drop (h.old x hx) hafter
    have hstill := List.mem_of_mem_drop hafter
    rw [turn_some hat] at hbefore
    have hwaited :=
      h.rest x hx ((List.drop_sublist_drop_left _ (Nat.le_succ d.index)).subset hbefore)
    rw [hwaiting] at hwaited
    rw [waiting_turn hat hwaiting, List.mem_filter, decide_eq_true_iff]
    rcases List.mem_cons.mp hwaited with rfl | hlater
    · exact absurd hbefore hlast
    · exact ⟨hlater, hstill⟩

/-- A turn that disturbs nobody. -/
theorem Going.turn (h : Going l d) (as : List (Act φ)) (hok : Undisturbed d as) :
    Going l (turn d as) := by
  cases hat : d.event.listeners[d.index]? with
  | none => rwa [turn_none hat]
  | some e =>
    cases hwaiting : d.waiting with
    | nil => exact (h.turn_nil hat hwaiting).1
    | cons w ws =>
      refine h.turn_cons hat hwaiting ?_
      rcases hok e hat with hstay | hnone
      · obtain ⟨front, back, hlisteners, hnext, -, hlength⟩ := h.split hat hwaiting as
        have hindex : (Dispatch.turn d as).index = front.length := by
          rw [hlength.mpr hstay, turn_some hat]
        rw [hindex, hlisteners, List.drop_left]
        exact hnext
      · rw [hnone]
        exact List.nil_prefix

/-! ## A missed listener -/

/-- The listener has its turn, and is not called. -/
def Missed (d : Loop φ) (e : Entry φ) : Prop :=
  (e ∈ d.turns ∨ d.waiting.head? = some e) ∧ e ∉ d.called ∧
    e ∉ d.event.listeners.drop d.index ∧ e.id < d.event.fresh

/-- A turn that disturbs somebody. -/
theorem Going.missed (h : Going l d) (hl : l.Nodup) (hbad : ¬ Undisturbed d as) :
    ∃ w, Missed (Dispatch.turn d as) w := by
  unfold Undisturbed at hbad
  push Not at hbad
  obtain ⟨e, hat, ⟨x, hx, hgone⟩, hsome⟩ := hbad
  obtain ⟨hvalid, hfollows⟩ := turn_event h.valid as
  cases hwaiting : d.waiting with
  | nil => exact absurd (h.turn_nil hat hwaiting).2 hsome
  | cons w ws =>
    obtain ⟨rfl, htail, hlast⟩ := h.head hat hwaiting
    obtain ⟨v, vs, hvs⟩ := List.exists_cons_of_ne_nil hsome
    obtain ⟨front, back, hlisteners, hnext, hle, hlength⟩ := h.split hat hwaiting as
    have hshort : front.length ≤ d.index := by
      have hne : front.length ≠ d.index + 1 := fun heq => hgone (hlength.mp heq x hx)
      omega
    have hv : v ∈ ws := by
      have hmem : v ∈ (Dispatch.turn d as).waiting := by
        rw [hvs]
        exact List.mem_cons_self
      rw [waiting_turn hat hwaiting] at hmem
      exact List.mem_of_mem_filter hmem
    have hvl : v ∈ l := h.mem_of_waiting (by rw [hwaiting]; exact List.mem_cons_of_mem _ hv)
    refine ⟨v, .inr (by rw [hvs]; rfl), fun hcalled => ?_, fun hmem => ?_,
      Nat.lt_of_lt_of_le (h.old v hvl) hfollows.1⟩
    · rw [turn_some hat] at hcalled
      rcases List.mem_append.mp hcalled with hearlier | hnow
      · have hturn : v ∈ d.turns := by
          rw [← h.called]
          exact List.mem_filter.mpr ⟨hearlier, by simpa using hvl⟩
        have hpending : v ∈ d.pending := by
          have hmem : v ∈ d.waiting := by
            rw [hwaiting]
            exact List.mem_cons_of_mem _ hv
          exact List.mem_of_mem_filter hmem
        exact List.disjoint_of_nodup_append (hl.sublist h.order) hturn hpending
      · rw [List.mem_singleton.mp hnow] at hv
        exact hlast (htail.subset hv)
    · have hindex : (Dispatch.turn d as).index = d.index + 1 := by rw [turn_some hat]
      rw [hindex] at hmem
      obtain ⟨tail, rfl⟩ := hnext
      rw [hvs] at hlisteners
      have hnodup := hvalid.listeners_nodup
      rw [hlisteners] at hnodup hmem
      have hbehind := (List.drop_sublist_drop_left _ (Nat.succ_le_succ hshort)).subset hmem
      rw [List.cons_append, List.drop_append, List.drop_of_length_le (Nat.le_succ _),
        List.nil_append, Nat.succ_sub (Nat.le_refl _), Nat.sub_self, List.drop_succ_cons,
        List.drop_zero] at hbehind
      exact (List.nodup_cons.mp (List.nodup_append.mp hnodup).2.1).1 hbehind

/-- A missed listener is missed for good. -/
theorem Missed.turn (hd : d.event.Valid) (h : Missed d e) (as : List (Act φ)) :
    Missed (Dispatch.turn d as) e := by
  cases hat : d.event.listeners[d.index]? with
  | none => rwa [turn_none hat]
  | some x =>
    obtain ⟨hturn, hcalled, hbehind, hid⟩ := h
    obtain ⟨-, hfollows⟩ := turn_event hd as
    have hx : x ∈ d.event.listeners.drop d.index := LuaTable.mem_drop hat (Nat.le_refl _)
    refine ⟨.inl ?_, ?_, fun hmem => ?_, Nat.lt_of_lt_of_le hid hfollows.1⟩
    · rw [turn_some hat]
      rcases hturn with hbefore | hfirst
      · exact List.mem_append_left _ hbefore
      · dsimp only
        rw [hfirst]
        exact List.mem_append_right _ List.mem_cons_self
    · rw [turn_some hat]
      intro hmem
      rcases List.mem_append.mp hmem with hbefore | hnow
      · exact hcalled hbefore
      · rw [List.mem_singleton.mp hnow] at hbehind
        exact hbehind hx
    · have hbefore := hfollows.mem_drop hid hmem
      rw [turn_some hat] at hbefore
      exact hbehind ((List.drop_sublist_drop_left _ (Nat.le_succ d.index)).subset hbefore)

theorem Missed.not_served (h : Missed d e) : ¬ Served s d := by
  intro hserved
  have hmem : e ∈ d.turns ++ d.waiting := by
    rcases h.1 with hturn | hfirst
    · exact List.mem_append_left _ hturn
    · exact List.mem_append_right _ (List.mem_of_mem_head? hfirst)
  rw [← hserved] at hmem
  exact h.2.1 (List.mem_of_mem_filter hmem)

/-! ## Every dispatch -/

/-- A dispatch begins in order. -/
theorem going_start (hs : s.Valid) : Going s.listeners (start s) := by
  have hwaiting : (start s).waiting = s.listeners := by
    unfold Loop.waiting start
    exact List.filter_eq_self.mpr fun e he => decide_eq_true he
  refine ⟨hs, hs.listeners, List.Sublist.refl _, rfl, ?_, fun e he _ => ?_⟩
  · rw [hwaiting]
    exact List.prefix_rfl
  · rw [hwaiting]
    exact he

/-- Where a turn disturbs somebody, a listener is missed in the end. -/
theorem exists_missed (h : Going l d) (hl : l.Nodup) {turns : List (List (Act φ))}
    (hbad : ¬ Along Undisturbed turn d turns) : ∃ e, Missed (Machine.run turn d turns) e := by
  induction turns generalizing d with
  | nil => exact absurd trivial hbad
  | cons as turns ih =>
    by_cases hok : Undisturbed d as
    · exact ih (h.turn as hok) fun hrest => hbad ⟨hok, hrest⟩
    · obtain ⟨e, hmissed⟩ := h.missed hl hok
      have hrun := Machine.run_inv (P := fun d : Loop φ => d.event.Valid ∧ Missed d e)
        (fun d as h => ⟨(turn_event h.1 as).1, h.2.turn h.1 as⟩)
        ⟨(turn_event h.valid as).1, hmissed⟩ turns
      exact ⟨e, hrun.2⟩

/-- The loop is over, or nobody waits, or at most so many do. -/
def Loop.Short (d : Loop φ) (n : Nat) : Prop :=
  d.Finished ∨ d.waiting = [] ∨ d.pending.length ≤ n

theorem Loop.Short.turn {n : Nat} (h : d.Short n) (as : List (Act φ)) :
    (turn d as).Short (n - 1) := by
  cases hat : d.event.listeners[d.index]? with
  | none => exact .inl (by rw [turn_none hat]; exact List.getElem?_eq_none_iff.mp hat)
  | some e =>
    cases hwaiting : d.waiting with
    | nil =>
      refine .inr (.inl ?_)
      rw [Loop.waiting, turn_some hat, hwaiting]
      rfl
    | cons w ws =>
      rcases h with hover | hnone | hlength
      · rw [List.getElem?_eq_none_iff.mpr hover] at hat
        exact absurd hat (by simp)
      · rw [hnone] at hwaiting
        exact absurd hwaiting (by simp)
      · refine .inr (.inr ?_)
        have hle : d.waiting.length ≤ d.pending.length := List.length_filter_le _ _
        rw [hwaiting, List.length_cons] at hle
        rw [turn_some hat, hwaiting]
        dsimp only [List.tail_cons]
        omega

theorem Loop.Short.run {n : Nat} (h : d.Short n) (turns : List (List (Act φ))) :
    (Machine.run Dispatch.turn d turns).Short (n - turns.length) := by
  induction turns generalizing d n with
  | nil => exact h
  | cons as turns ih =>
    have hrest := ih (h.turn as)
    rwa [Nat.sub_sub, Nat.add_comm] at hrest

/-- A dispatch from its beginning, after any history of the event: no handler that `once` made has
been called twice, and when the dispatch is over, or has had as many turns as there were listeners,
it has served its listeners if and only if no turn disturbed somebody. -/
theorem dispatch_iff (history : List (Act φ)) (turns : List (List (Act φ))) (d : Loop φ)
    (hd : d = Machine.run turn (start (Machine.run act empty history)) turns)
    (hover : d.Finished ∨ (Machine.run act empty history).listeners.length ≤ turns.length) :
    ((∀ e, e.once = true → d.event.calls.count e ≤ 1) ∧
        Served (Machine.run act empty history) d) ↔
      Along Undisturbed turn (start (Machine.run act empty history)) turns := by
  obtain ⟨hvalid, -⟩ := follows_run valid_empty history
  generalize Machine.run act empty history = s at hd hover hvalid ⊢
  have hstart := going_start hvalid
  have honce : ∀ e, e.once = true → d.event.calls.count e ≤ 1 := by
    have hevent : d.event.Valid := by
      rw [hd]
      exact Machine.run_inv (P := fun d : Loop φ => d.event.Valid)
        (fun d as h => (turn_event h as).1) hvalid turns
    intro e he
    by_cases hmem : e ∈ d.event.calls
    · exact Nat.le_of_eq (hevent.once e hmem he).1
    · rw [List.count_eq_zero_of_not_mem hmem]
      exact Nat.zero_le _
  refine ⟨fun h => ?_, fun h => ⟨honce, ?_⟩⟩
  · by_contra hbad
    obtain ⟨e, hmissed⟩ := exists_missed hstart hvalid.listeners_nodup hbad
    rw [← hd] at hmissed
    exact hmissed.not_served h.2
  · have hgoing : Going s.listeners d := by
      rw [hd]
      exact h.inv (fun d as hok hd => hd.turn as hok) hstart
    have hnone : d.waiting = [] := by
      have hshort := (show (start s).Short s.listeners.length from
        .inr (.inr (Nat.le_refl _))).run turns
      rw [← hd] at hshort
      have hlast : d.Finished → d.waiting = [] := by
        intro hfinished
        have hnext := hgoing.next
        rw [List.drop_of_length_le hfinished] at hnext
        exact List.prefix_nil.mp hnext
      rcases hshort with hfinished | hnone | hlength
      · exact hlast hfinished
      · exact hnone
      · rcases hover with hfinished | hmany
        · exact hlast hfinished
        · rw [Nat.sub_eq_zero_of_le hmany] at hlength
          have hpending := List.length_eq_zero_iff.mp (Nat.le_zero.mp hlength)
          rw [Loop.waiting, hpending]
          rfl
    rw [Served, hgoing.called, hnone, List.append_nil]

/-- A listener for one time before another one. -/
def onceBefore : List (Act Nat) := [.once 1, .on 2]

/-- The first one removes itself, and the loop is over before it comes to the second one. -/
theorem second_skipped :
    (Machine.run turn (start (Machine.run act empty onceBefore)) [[]]).Finished ∧
      ¬ Served (Machine.run act empty onceBefore)
        (Machine.run turn (start (Machine.run act empty onceBefore)) [[]]) := by
  unfold Loop.Finished Served
  decide

/-- A listener for one time behind another one. -/
theorem dispatch_iff_behind :
    Served (Machine.run act empty ([.on 1, .once 2] : List (Act Nat)))
      (Machine.run turn (start (Machine.run act empty [.on 1, .once 2])) [[], []]) := by
  refine ((dispatch_iff [.on 1, .once 2] [[], []] _ rfl (.inr (by decide))).mpr ?_).2
  refine ⟨fun e _ => .inl (by decide), fun e _ => .inr (by decide), trivial⟩

end Dispatch

end Zuckerserv
