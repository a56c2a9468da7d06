import Zuckerserv.Enet.Incoming

/-!
# The numbers behind the 16 bit numbers

The commands of a channel are numbered without end; what travels is the number modulo 65536.
Near the number the receiver has reached, the windows tell the two apart.

* `outsideWindows_iff` — which commands a channel takes.
* `queueAcknowledgement_iff` — which ones it acknowledges.
-/

namespace Zuckerserv

namespace Enet

variable {r n m : Nat}

theorem reliableWindow_ahead (h : r ≤ n) (hn : n < r + 65536) :
    reliableWindow (n % 65536) (r % 65536) = r % 65536 / 4096 + (n / 4096 - r / 4096) := by
  unfold reliableWindow RELIABLE_WINDOW_SIZE RELIABLE_WINDOWS
  split <;> omega

theorem reliableWindow_behind (h : n < r) (hn : r ≤ n + 36864) :
    r % 65536 / 4096 + 7 ≤ reliableWindow (n % 65536) (r % 65536) := by
  unfold reliableWindow RELIABLE_WINDOW_SIZE RELIABLE_WINDOWS
  split <;> omega

/-- A command is taken if it is not older than the number reached and its window is one of the
seven from there on. -/
theorem outsideWindows_iff (hlow : r ≤ n + 36864) (hhigh : n < r + 65536) :
    outsideWindows (n % 65536) (r % 65536) ↔ ¬ (r ≤ n ∧ n / 4096 < r / 4096 + 7) := by
  unfold outsideWindows RELIABLE_WINDOW_SIZE FREE_RELIABLE_WINDOWS
  rcases Nat.lt_or_ge n r with h | h
  · have hw := reliableWindow_behind h hlow
    constructor
    · intro _
      omega
    · intro _
      omega
  · rw [reliableWindow_ahead h hhigh]
    omega

/-- A command that is acknowledged is an old one, or of one of the seven windows. -/
theorem queueAcknowledgement_spec {x : Receiver} (hr : x.incomingReliableSequenceNumber = r % 65536)
    (hn : n / 4096 ≤ r / 4096 + 7) (hack : queueAcknowledgement x (n % 65536) = true) :
    n < r ∨ n / 4096 < r / 4096 + 7 := by
  rcases Nat.lt_or_ge n r with h | h
  · exact Or.inl h
  refine Or.inr ?_
  unfold queueAcknowledgement RELIABLE_WINDOW_SIZE FREE_RELIABLE_WINDOWS at hack
  rw [hr, reliableWindow_ahead h (by omega)] at hack
  simp only [Bool.not_eq_true', Bool.and_eq_false_iff, decide_eq_false_iff_not] at hack
  omega

/-! ## Comparing two numbers ahead -/

/-- Numbers less than a cycle apart are the same if they look the same. -/
theorem eq_of_mod_eq (h : n % 65536 = m % 65536) (hn : n < m + 65536) (hm : m < n + 65536) :
    n = m := by
  omega

/-- The loop over the queue goes on past exactly the commands that are behind the number. -/
theorem passes_iff {c : Incoming} (hc : c.reliableSequenceNumber = m % 65536) (hrn : r < n)
    (hn : n < r + 65536) (hrm : r < m) (hm : m < r + 65536) :
    passes (n % 65536) (r % 65536) c = true ↔ n < m := by
  unfold passes
  rw [hc]
  split_ifs with h1 h2
  · simp only [true_iff]
    omega
  · simp only [Bool.false_eq_true, false_iff]
    omega
  · rw [decide_eq_true_iff]
    omega

end Enet

end Zuckerserv
