import Zuckerserv.Fps.Events

/-!
# Events that outlive their client's life

When a client dies or gets another life, its timed events are cleared. The loop remembers where the
last event that is kept ends, and removes what lies between it and the next one to keep.

* `Swept` — what the loop knows after some of the events.
* `Swept.cut`, `Swept.pass`, `Swept.loop` — one more event, and all of them.
* `cleartimedevents_spec` — what is left, and what is deleted.
-/

namespace Zuckerserv

namespace Game

/-- The state of the loop when it has seen the events `seen` and not yet `rest`: first the events to
keep, then the `run` of those that are going to be deleted, then the rest. -/
structure Swept (seen run rest : List Event) (w : Clearing) : Prop where
  events : w.events = seen.filter Event.keepable ++ (run ++ rest)
  keep : w.keep = (seen.filter Event.keepable).length
  i : w.i = w.keep + run.length
  deleted : w.deleted ++ run = seen.filter fun e => ! e.keepable

/-- An event to keep ends the run, which is deleted. -/
theorem Swept.cut {seen run rest : List Event} {e : Event} {w : Clearing}
    (h : Swept seen run (e :: rest) w) (he : e.keepable = true) :
    Swept (seen ++ [e]) [] rest (w.next e) := by
  obtain ⟨hevents, hkeep, hi, hdeleted⟩ := h
  have hkept : (seen ++ [e]).filter Event.keepable = seen.filter Event.keepable ++ [e] := by
    simp [List.filter_append, he]
  have hgone : (seen ++ [e]).filter (fun e => ! e.keepable) =
      seen.filter fun e => ! e.keepable := by
    simp [List.filter_append, he]
  unfold Clearing.next
  rw [if_pos he]
  by_cases hrun : w.keep < w.i
  · have hlength : w.i - w.keep = run.length := by omega
    rw [if_pos hrun]
    refine ⟨?_, ?_, rfl, ?_⟩
    · show w.events.take w.keep ++ w.events.drop w.i = _
      rw [hevents, hi, hkept, hkeep, List.take_left, ← List.drop_drop, List.drop_left,
        List.drop_left]
      simp
    · show w.keep + 1 = _
      rw [hkept, hkeep, List.length_append, List.length_singleton]
    · show w.deleted ++ (w.events.drop w.keep).take (w.i - w.keep) ++ [] = _
      rw [hevents, hlength, hkeep, List.drop_left, List.take_left, List.append_nil, hgone,
        hdeleted]
  · obtain rfl : run = [] := List.length_eq_zero_iff.mp (by omega)
    rw [if_neg hrun]
    refine ⟨?_, ?_, rfl, ?_⟩
    · show w.events = _
      rw [hevents, hkept]
      simp
    · show w.i + 1 = _
      rw [hkept, hi, hkeep, List.length_append, List.length_singleton]
      rfl
    · rw [hgone]
      exact hdeleted

/-- Another event becomes part of the run. -/
theorem Swept.pass {seen run rest : List Event} {e : Event} {w : Clearing}
    (h : Swept seen run (e :: rest) w) (he : ¬ e.keepable = true) :
    Swept (seen ++ [e]) (run ++ [e]) rest (w.next e) := by
  obtain ⟨hevents, hkeep, hi, hdeleted⟩ := h
  have hkept : (seen ++ [e]).filter Event.keepable = seen.filter Event.keepable := by
    simp [List.filter_append, he]
  unfold Clearing.next
  rw [if_neg he]
  refine ⟨?_, ?_, ?_, ?_⟩
  · show w.events = _
    rw [hevents, hkept]
    simp
  · show w.keep = _
    rw [hkept, hkeep]
  · show w.i + 1 = w.keep + (run ++ [e]).length
    rw [hi, List.length_append, List.length_singleton, Nat.add_assoc]
  · show w.deleted ++ (run ++ [e]) = _
    rw [← List.append_assoc, hdeleted]
    simp [List.filter_append, he]

theorem Swept.next {seen run rest : List Event} {e : Event} {w : Clearing}
    (h : Swept seen run (e :: rest) w) :
    Swept (seen ++ [e]) (if e.keepable then [] else run ++ [e]) rest (w.next e) := by
  split
  · rename_i he
    exact h.cut he
  · rename_i he
    exact h.pass he

/-- All events that are left. -/
theorem Swept.loop {seen run rest : List Event} {w : Clearing} (h : Swept seen run rest w) :
    ∃ run', Swept (seen ++ rest) run' [] (Clearing.loop rest.length w) := by
  induction rest generalizing seen run w with
  | nil =>
    rw [List.append_nil]
    exact ⟨run, h⟩
  | cons e rest ih =>
    have hnext : w.events[w.i]? = some e := by
      rw [h.events, h.i, h.keep, ← List.append_assoc, ← List.length_append,
        List.getElem?_append_right (Nat.le_refl _), Nat.sub_self]
      rfl
    obtain ⟨run', hloop⟩ := ih h.next
    rw [List.append_assoc, List.singleton_append] at hloop
    refine ⟨run', ?_⟩
    rw [List.length_cons, Clearing.loop, hnext]
    exact hloop

/-- For every queue, `cleartimedevents` leaves the events to keep in their order and deletes the
others, each as often as it was there; of the client nothing else changes but `timesync`. -/
theorem cleartimedevents_spec (ci : ClientInfo) :
    cleartimedevents ci =
      { ci with events := ci.events.filter Event.keepable, timesync := false } ∧
    (clearing ci.events).2.Perm (ci.events.filter fun e => ! e.keepable) := by
  have hstart : Swept [] [] ci.events ⟨ci.events, 0, 0, []⟩ := ⟨rfl, rfl, rfl, rfl⟩
  obtain ⟨run, hevents, hkeep, -, hdeleted⟩ := hstart.loop
  rw [List.nil_append] at hevents hkeep hdeleted
  rw [List.append_nil] at hevents
  have hleft : (clearing ci.events).1 = ci.events.filter Event.keepable := by
    show List.take _ (Clearing.loop _ _).events = _
    rw [hevents, hkeep, List.take_left]
  have hpopped : (clearing ci.events).2 =
      (Clearing.loop ci.events.length ⟨ci.events, 0, 0, []⟩).deleted ++ run.reverse := by
    show _ ++ (List.drop _ (Clearing.loop _ _).events).reverse = _
    rw [hevents, hkeep, List.drop_left]
  constructor
  · rw [cleartimedevents, hleft]
  · rw [hpopped, ← hdeleted]
    exact (List.reverse_perm run).append_left _

end Game

end Zuckerserv
