import Zuckerserv.Enet.Incoming
import Zuckerserv.Lib.Machine

/-!
# Unsequenced packets

Unsequenced packets may arrive in any order. A window of 1024 bits tells which groups of numbers
have arrived; it moves on with the newest group.

* `handleSendUnsequenced` — a packet arrives.
* `Fresh` — what the network must not do: be more than 31 windows late, or early.
* `unsequenced_once` — no packet is delivered twice, and one of the newest window is delivered
  when it arrives.
-/

namespace Zuckerserv

namespace Enet

/-- `ENET_PEER_UNSEQUENCED_WINDOW_SIZE`. -/
abbrev UNSEQUENCED_WINDOW_SIZE : Nat := 1024

/-- `ENET_PEER_FREE_UNSEQUENCED_WINDOWS`. -/
abbrev FREE_UNSEQUENCED_WINDOWS : Nat := 32

/-- What `ENetPeer` holds for unsequenced packets that arrive. -/
structure UnsequencedPeer where
  incomingUnsequencedGroup : Nat
  /-- The bits of `unsequencedWindow`. -/
  unsequencedWindow : Nat → Bool

/-- What `enet_peer_queue_incoming_command` makes of a packet: a command, the dummy command, or
`NULL`. -/
inductive Outcome
  | queued | discarded | notifyError
  deriving DecidableEq, Repr

/-- `enet_protocol_handle_send_unsequenced`: the peer afterwards, and whether the packet has been
put into the queue. -/
def handleSendUnsequenced (peer : UnsequencedPeer) (unsequencedGroup : Nat) (outcome : Outcome) :
    UnsequencedPeer × Bool :=
  let index := unsequencedGroup % UNSEQUENCED_WINDOW_SIZE
  let group := if unsequencedGroup < peer.incomingUnsequencedGroup then unsequencedGroup + 0x10000
    else unsequencedGroup
  if peer.incomingUnsequencedGroup + FREE_UNSEQUENCED_WINDOWS * UNSEQUENCED_WINDOW_SIZE ≤ group then
    (peer, false)
  else
    let group := group % 0x10000
    let moved := group - index ≠ peer.incomingUnsequencedGroup
    if ¬ moved ∧ peer.unsequencedWindow index = true then (peer, false)
    else
      let peer := if moved then
          { incomingUnsequencedGroup := group - index, unsequencedWindow := fun _ => false }
        else peer
      let marked := { peer with
        unsequencedWindow := Function.update peer.unsequencedWindow index true }
      match outcome with
      | .notifyError => (peer, false)
      | .discarded => (marked, false)
      | .queued => (marked, true)

/-- A peer with the groups that have arrived, numbered without end. -/
structure Arrivals where
  peer : UnsequencedPeer
  /-- The newest group that has arrived. -/
  newest : Nat
  delivered : List Nat

/-- Nothing has arrived; the first group is 1. -/
def Arrivals.init : Arrivals := ⟨⟨0, fun _ => false⟩, 0, []⟩

/-- The group `x.1` arrives. -/
def arrive (s : Arrivals) (x : Nat × Outcome) : Arrivals :=
  let (peer, queued) := handleSendUnsequenced s.peer (x.1 % 65536) x.2
  { peer
    newest := max s.newest x.1
    delivered := if queued then s.delivered ++ [x.1] else s.delivered }

/-- A group arrives less than 31 windows before or behind the newest one. -/
def Fresh (s : Arrivals) (x : Nat × Outcome) : Prop :=
  x.1 ≤ s.newest + 31744 ∧ s.newest ≤ x.1 + 31744

instance (s : Arrivals) (x : Nat × Outcome) : Decidable (Fresh s x) :=
  inferInstanceAs (Decidable (_ ∧ _))

/-- The window is that of the newest group; its bits are set for what was delivered, and for
nothing that has not arrived. -/
structure WindowInv (s : Arrivals) (arrived : List Nat) : Prop where
  group : s.peer.incomingUnsequencedGroup = s.newest / 1024 * 1024 % 65536
  nodup : s.delivered.Nodup
  le : ∀ t ∈ s.delivered, t ≤ s.newest ∧ t ∈ arrived
  delivered : ∀ t ∈ s.delivered, s.newest / 1024 ≤ t / 1024 →
    s.peer.unsequencedWindow (t % 1024) = true
  arrived : ∀ i < 1024, s.peer.unsequencedWindow i = true →
    s.newest / 1024 * 1024 + i ∈ arrived

variable {s : Arrivals} {x : Nat × Outcome} {arrived : List Nat} {t : Nat}

/-! ## What a group does -/

/-- A group of an older window is dropped. -/
theorem arrive_old (h : WindowInv s arrived) (hfresh : Fresh s x)
    (hold : x.1 / 1024 < s.newest / 1024) : arrive s x = s := by
  obtain ⟨-, hlate⟩ := hfresh
  have hdropped : handleSendUnsequenced s.peer (x.1 % 65536) x.2 = (s.peer, false) := by
    unfold handleSendUnsequenced FREE_UNSEQUENCED_WINDOWS UNSEQUENCED_WINDOW_SIZE
    dsimp only
    rw [h.group, if_pos]
    split <;> omega
  unfold arrive
  rw [hdropped]
  simp only [Bool.false_eq_true, if_false]
  rw [Nat.max_eq_left (by omega)]

/-- A group of the window, or of one to come. -/
theorem handle_recent (h : WindowInv s arrived) (hfresh : Fresh s x)
    (hrecent : s.newest / 1024 ≤ x.1 / 1024) :
    handleSendUnsequenced s.peer (x.1 % 65536) x.2 =
      if x.1 / 1024 = s.newest / 1024 ∧ s.peer.unsequencedWindow (x.1 % 1024) = true then
        (s.peer, false)
      else
        let peer : UnsequencedPeer := if x.1 / 1024 ≠ s.newest / 1024 then
            ⟨x.1 / 1024 * 1024 % 65536, fun _ => false⟩
          else s.peer
        let marked := { peer with
          unsequencedWindow := Function.update peer.unsequencedWindow (x.1 % 1024) true }
        match x.2 with
        | .notifyError => (peer, false)
        | .discarded => (marked, false)
        | .queued => (marked, true) := by
  obtain ⟨hearly, -⟩ := hfresh
  have hindex : x.1 % 65536 % 1024 = x.1 % 1024 := by omega
  have hgroup : ∀ b, (if x.1 % 65536 < b then x.1 % 65536 + 65536 else x.1 % 65536) % 65536 =
      x.1 % 65536 := by
    intro b
    split <;> omega
  have hbase : x.1 % 65536 - x.1 % 1024 = x.1 / 1024 * 1024 % 65536 := by omega
  have hmoved : x.1 / 1024 * 1024 % 65536 ≠ s.newest / 1024 * 1024 % 65536 ↔
      x.1 / 1024 ≠ s.newest / 1024 := by omega
  unfold handleSendUnsequenced FREE_UNSEQUENCED_WINDOWS UNSEQUENCED_WINDOW_SIZE
  dsimp only
  rw [h.group, hgroup, hindex, hbase, if_neg]
  · simp only [hmoved, not_not]
  · split <;> omega

theorem WindowInv.mono {arrived' : List Nat} (h : WindowInv s arrived)
    (hsub : ∀ t ∈ arrived, t ∈ arrived') : WindowInv s arrived' :=
  ⟨h.group, h.nodup, fun t ht => ⟨(h.le t ht).1, hsub t (h.le t ht).2⟩, h.delivered,
    fun i hi hbit => hsub _ (h.arrived i hi hbit)⟩

/-- The window of a group that is taken. -/
def windowOf (s : Arrivals) (t : Nat) : UnsequencedPeer :=
  if t / 1024 ≠ s.newest / 1024 then ⟨t / 1024 * 1024 % 65536, fun _ => false⟩ else s.peer

/-- The window moves on, or stays; what is new about it does not count as arrived. -/
theorem windowInv_windowOf (h : WindowInv s arrived) (hrecent : s.newest / 1024 ≤ t / 1024) :
    WindowInv ⟨windowOf s t, max s.newest t, s.delivered⟩ arrived := by
  unfold windowOf
  have hnewest : max s.newest t / 1024 = t / 1024 := by omega
  by_cases hmoved : t / 1024 ≠ s.newest / 1024
  · rw [if_pos hmoved]
    refine ⟨?_, h.nodup, fun u hu => ⟨(h.le u hu).1.trans (Nat.le_max_left ..), (h.le u hu).2⟩,
      fun u hu hle => ?_, fun i _ hbit => by cases hbit⟩
    · dsimp only
      rw [hnewest]
    · have := (h.le u hu).1
      dsimp only at hle
      omega
  · rw [if_neg hmoved]
    rw [not_not] at hmoved
    refine ⟨?_, h.nodup, fun u hu => ⟨(h.le u hu).1.trans (Nat.le_max_left ..), (h.le u hu).2⟩,
      fun u hu hle => h.delivered u hu ?_, fun i hi hbit => ?_⟩
    · dsimp only
      rw [hnewest, hmoved]
      exact h.group
    · dsimp only at hle
      omega
    · dsimp only
      rw [hnewest, hmoved]
      exact h.arrived i hi hbit

/-- A bit is set for a group that has arrived. -/
theorem WindowInv.set (h : WindowInv s arrived) (ht : t / 1024 = s.newest / 1024) :
    WindowInv { s with peer := { s.peer with
      unsequencedWindow := Function.update s.peer.unsequencedWindow (t % 1024) true } }
      (arrived ++ [t]) := by
  refine ⟨h.group, h.nodup, fun u hu => ⟨(h.le u hu).1, List.mem_append_left _ (h.le u hu).2⟩,
    fun u hu hle => ?_, fun i hi hbit => ?_⟩
  · dsimp only
    by_cases hu' : u % 1024 = t % 1024
    · rw [hu', Function.update_self]
    · rw [Function.update_of_ne hu']
      exact h.delivered u hu hle
  · dsimp only at hbit ⊢
    by_cases hit : i = t % 1024
    · have heq : s.newest / 1024 * 1024 + i = t := by omega
      rw [heq]
      exact List.mem_append_right _ List.mem_cons_self
    · rw [Function.update_of_ne hit] at hbit
      exact List.mem_append_left _ (h.arrived i hi hbit)

/-- A group is delivered that has not been before. -/
theorem WindowInv.deliver (h : WindowInv s arrived) (ht : t ∉ s.delivered)
    (hle : t ≤ s.newest) (harrived : t ∈ arrived)
    (hbit : s.peer.unsequencedWindow (t % 1024) = true) :
    WindowInv { s with delivered := s.delivered ++ [t] } arrived := by
  refine ⟨h.group, ?_, fun u hu => ?_, fun u hu hle' => ?_, h.arrived⟩
  · refine List.nodup_append.mpr ⟨h.nodup, by simp, fun u hu v hv => ?_⟩
    rw [List.mem_singleton.mp hv]
    exact fun heq => ht (heq ▸ hu)
  · rcases List.mem_append.mp hu with hu | hu
    · exact h.le u hu
    · rw [List.mem_singleton.mp hu]
      exact ⟨hle, harrived⟩
  · rcases List.mem_append.mp hu with hu | hu
    · exact h.delivered u hu hle'
    · rw [List.mem_singleton.mp hu]
      exact hbit

theorem windowInv_arrive (h : WindowInv s arrived) (hfresh : Fresh s x) :
    WindowInv (arrive s x) (arrived ++ [x.1]) ∧ (∀ t ∈ s.delivered, t ∈ (arrive s x).delivered) ∧
      (s.newest / 1024 ≤ x.1 / 1024 → x.1 ∉ arrived → x.2 = .queued →
        x.1 ∈ (arrive s x).delivered) := by
  rcases Nat.lt_or_ge (x.1 / 1024) (s.newest / 1024) with hold | hrecent
  · rw [arrive_old h hfresh hold]
    exact ⟨h.mono fun t ht => List.mem_append_left _ ht, fun _ ht => ht,
      fun hle => absurd hle (Nat.not_le.mpr hold)⟩
  have hhandle := handle_recent h hfresh hrecent
  by_cases hbit : x.1 / 1024 = s.newest / 1024 ∧ s.peer.unsequencedWindow (x.1 % 1024) = true
  · -- it has arrived before
    have hin := h.arrived _ (Nat.mod_lt x.1 (by decide)) hbit.2
    have heq : s.newest / 1024 * 1024 + x.1 % 1024 = x.1 := by omega
    rw [heq] at hin
    rw [if_pos hbit] at hhandle
    unfold arrive
    rw [hhandle]
    have hstay := windowInv_windowOf h hrecent
    rw [windowOf, if_neg (not_not.mpr hbit.1)] at hstay
    exact ⟨hstay.mono fun t ht => List.mem_append_left _ ht, fun _ ht => ht,
      fun _ hnot => absurd hin hnot⟩
  rw [if_neg hbit] at hhandle
  have hnew := windowInv_windowOf h hrecent
  have hset := hnew.set (t := x.1) (by dsimp only; omega)
  -- what has been delivered of this window would have its bit set
  have hnot : x.1 ∉ s.delivered := fun hin => by
    have hle := (h.le x.1 hin).1
    exact hbit ⟨by omega, h.delivered x.1 hin (by omega)⟩
  unfold arrive
  rw [hhandle]
  obtain ⟨group, outcome⟩ := x
  cases outcome with
  | notifyError =>
    exact ⟨hnew.mono fun t ht => List.mem_append_left _ ht, fun _ ht => ht,
      fun _ _ hqueued => by cases hqueued⟩
  | discarded => exact ⟨hset, fun _ ht => ht, fun _ _ hqueued => by cases hqueued⟩
  | queued =>
    refine ⟨hset.deliver hnot (Nat.le_max_right ..) (by simp) ?_,
      fun _ ht => List.mem_append_left _ ht, fun _ _ _ => by simp⟩
    exact Function.update_self ..

/-! ## Runs -/

theorem windowInv_run {xs : List (Nat × Outcome)}
    (h : Machine.Along Fresh arrive s xs) (hs : WindowInv s arrived) :
    WindowInv (Machine.run arrive s xs) (arrived ++ xs.map Prod.fst) ∧
      ∀ t ∈ s.delivered, t ∈ (Machine.run arrive s xs).delivered := by
  induction xs generalizing s arrived with
  | nil =>
    rw [List.map_nil, List.append_nil]
    exact ⟨hs, fun _ ht => ht⟩
  | cons x xs ih =>
    obtain ⟨hinv, hmono, -⟩ := windowInv_arrive hs h.1
    obtain ⟨hrun, hmono'⟩ := ih h.2 hinv
    refine ⟨?_, fun t ht => hmono' t (hmono t ht)⟩
    have happend : arrived ++ (x :: xs).map Prod.fst = arrived ++ [x.1] ++ xs.map Prod.fst := by
      simp
    rw [happend]
    exact hrun

theorem windowInv_init : WindowInv Arrivals.init [] where
  group := rfl
  nodup := List.nodup_nil
  le := by simp [Arrivals.init]
  delivered := by simp [Arrivals.init]
  arrived := by simp [Arrivals.init]

/-- **At most once, and at once.** If no group is more than 31 windows late or early, then however
the groups are reordered and repeated, none is delivered twice; and a group that is not of an
older window is delivered when it first arrives, unless the queue refuses it. -/
theorem unsequenced_once {xs : List (Nat × Outcome)}
    (h : Machine.Along Fresh arrive Arrivals.init xs) :
    (Machine.run arrive Arrivals.init xs).delivered.Nodup ∧
      (∀ t ∈ (Machine.run arrive Arrivals.init xs).delivered, t ∈ xs.map Prod.fst) ∧
      ∀ ys x zs, xs = ys ++ x :: zs → x.1 ∉ ys.map Prod.fst → x.2 = .queued →
        (Machine.run arrive Arrivals.init ys).newest / 1024 ≤ x.1 / 1024 →
        x.1 ∈ (Machine.run arrive Arrivals.init xs).delivered := by
  obtain ⟨hrun, -⟩ := windowInv_run h windowInv_init
  rw [List.nil_append] at hrun
  refine ⟨hrun.nodup, fun t ht => (hrun.le t ht).2, ?_⟩
  rintro ys x zs rfl hfirst hqueued hrecent
  obtain ⟨hys, hx, hzs⟩ := Machine.along_append.mp h
  obtain ⟨hbefore, -⟩ := windowInv_run hys windowInv_init
  rw [List.nil_append] at hbefore
  obtain ⟨hinv, -, hdelivered⟩ := windowInv_arrive hbefore hx
  rw [Machine.run_append]
  exact (windowInv_run hzs hinv).2 _ (hdelivered hrecent hfirst hqueued)

theorem unsequenced_once_reordered :
    let xs : List (Nat × Outcome) :=
      [(2, .queued), (1, .queued), (2, .queued), (1030, .queued), (3, .queued)]
    (Machine.run arrive Arrivals.init xs).delivered.Nodup ∧
      (∀ t ∈ (Machine.run arrive Arrivals.init xs).delivered, t ∈ xs.map Prod.fst) ∧
      ∀ ys x zs, xs = ys ++ x :: zs → x.1 ∉ ys.map Prod.fst → x.2 = .queued →
        (Machine.run arrive Arrivals.init ys).newest / 1024 ≤ x.1 / 1024 →
        x.1 ∈ (Machine.run arrive Arrivals.init xs).delivered :=
  unsequenced_once ⟨by decide, by decide, by decide, by decide, by decide, trivial⟩

end Enet

end Zuckerserv
