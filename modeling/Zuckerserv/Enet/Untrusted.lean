import Zuckerserv.Enet.Incoming
import Zuckerserv.Lib.Machine

/-!
# A peer that sends anything

The other end need not be an honest sender: its commands may hold any numbers and any data. What
the receiving end does with them stays sound.

* `Tracked` — the bits and the counter of a packet in fragments agree.
* `Chain` — packets that are numbered without gaps and repeats.
* `Shape`, `Inserted` — what a packet is from its first command on, and what a command may add.
* `receive_untrusted` — whatever arrives, packets are delivered complete and without gaps.
-/

namespace Zuckerserv

namespace Enet

/-- The counter of the fragments that are missing agrees with their bits, and the packet has a
size the host allows. -/
structure Tracked (host : Host) (e : Incoming) : Prop where
  length : e.fragments.length = e.fragmentCount
  remaining : e.fragmentsRemaining = e.fragments.count false
  size : e.data.length ≤ host.maximumPacketSize
  count : e.fragmentCount ≤ MAXIMUM_FRAGMENT_COUNT

/-- The number of the last command of a packet. -/
def Incoming.last (e : Incoming) : Nat :=
  if 0 < e.fragmentCount then (e.reliableSequenceNumber + (e.fragmentCount - 1)) % U16
  else e.reliableSequenceNumber

/-- The packets are numbered one after the other, from behind `current` up to `current'`. -/
def Chain : Nat → List Incoming → Nat → Prop
  | current, [], current' => current = current'
  | current, e :: l, current' =>
    e.reliableSequenceNumber = (current + 1) % U16 ∧ Chain e.last l current'

/-- The invariant of a receiver, whatever it receives. -/
structure Untrusted (host : Host) (r : Receiver) : Prop where
  queue : ∀ e ∈ r.incomingReliableCommands, Tracked host e
  complete : ∀ e ∈ r.dispatchedCommands, Tracked host e ∧ ∀ b ∈ e.fragments, b = true
  chain : Chain 0 r.dispatchedCommands r.incomingReliableSequenceNumber

/-- What a packet is from its first command on: its number, its fragments, their bits, and its
size. -/
structure Shape where
  reliableSequenceNumber : Nat
  fragmentCount : Nat
  bits : Nat
  size : Nat

/-- The shape of a packet. -/
def Incoming.shape (e : Incoming) : Shape :=
  ⟨e.reliableSequenceNumber, e.fragmentCount, e.fragments.length, e.data.length⟩

/-- The shapes of the packets of a channel: of those handed over, and of those in the queue. -/
def Receiver.shapes (r : Receiver) : List Shape :=
  (r.dispatchedCommands ++ r.incomingReliableCommands).map Incoming.shape

/-- The shape of the packet that a command is of, as the command announces it. -/
def Command.shape (c : Command) : Shape :=
  match c.body with
  | .sendReliable data => ⟨c.reliableSequenceNumber, 0, 0, data.length⟩
  | .sendFragment startSequenceNumber fragmentCount _ totalLength _ _ =>
    ⟨startSequenceNumber, fragmentCount, fragmentCount, totalLength⟩

/-- The list stays, or something is inserted. -/
def Inserted (x : Shape) (l l' : List Shape) : Prop :=
  l' = l ∨ ∃ front back, l = front ++ back ∧ l' = front ++ x :: back

variable {host : Host} {r r' : Receiver} {e : Incoming} {full : Bool} {l l' : List Incoming}
  {i j k : Nat}

theorem Chain.append (h : Chain i l j) (h' : Chain j l' k) : Chain i (l ++ l') k := by
  induction l generalizing i with
  | nil =>
    obtain rfl : i = j := h
    exact h'
  | cons e l ih => exact ⟨h.1, ih h.2⟩

/-! ## Taking packets from the queue -/

/-- The loop goes on from packet to packet. -/
theorem dispatchLoop_chain (current : Nat) (h : ∀ e ∈ l, Tracked host e) :
    Chain current (dispatchLoop current l).2.1 (dispatchLoop current l).1 ∧
      (∀ e ∈ (dispatchLoop current l).2.1, Tracked host e ∧ ∀ b ∈ e.fragments, b = true) ∧
      ∀ e ∈ (dispatchLoop current l).2.2, Tracked host e := by
  induction l generalizing current with
  | nil => exact ⟨rfl, by simp [dispatchLoop], by simp [dispatchLoop]⟩
  | cons e l ih =>
    rw [dispatchLoop]
    split
    · exact ⟨rfl, by simp, h⟩
    · rename_i hcond
      rw [not_or, Nat.not_lt, not_not, Nat.le_zero] at hcond
      obtain ⟨hremaining, hnumber⟩ := hcond
      obtain ⟨hchain, hcomplete, hrest⟩ := ih e.last
        fun x hx => h x (List.mem_cons_of_mem e hx)
      have htracked := h e List.mem_cons_self
      refine ⟨⟨hnumber, hchain⟩, fun x hx => ?_, hrest⟩
      rcases List.mem_cons.mp hx with rfl | hx
      · refine ⟨htracked, fun b hb => ?_⟩
        have hnone := List.count_eq_zero.mp (htracked.remaining.symm.trans hremaining)
        cases b with
        | false => exact absurd hb hnone
        | true => rfl
      · exact hcomplete x hx

theorem untrusted_dispatch (h : Untrusted host r) :
    Untrusted host (dispatchIncomingReliableCommands r) := by
  obtain ⟨hchain, hcomplete, hrest⟩ :=
    dispatchLoop_chain r.incomingReliableSequenceNumber h.queue
  refine ⟨hrest, fun e he => ?_, h.chain.append hchain⟩
  rcases List.mem_append.mp he with he | he
  · exact h.complete e he
  · exact hcomplete e he

/-! ## Putting packets into the queue -/

/-- Another command anywhere in the queue. -/
theorem untrusted_insert (h : Untrusted host r) (he : Tracked host e) (number : Nat) :
    Untrusted host { r with
      incomingReliableCommands :=
        before number r.incomingReliableSequenceNumber r.incomingReliableCommands ++
          e :: after number r.incomingReliableSequenceNumber r.incomingReliableCommands } := by
  refine ⟨fun x hx => ?_, h.complete, h.chain⟩
  rcases List.mem_append.mp hx with hx | hx
  · exact h.queue x ((List.rdropWhile_prefix _ _).subset hx)
  rcases List.mem_cons.mp hx with rfl | hx
  · exact he
  · exact h.queue x ((List.rtakeWhile_suffix _ _).subset hx)

theorem queueIncomingCommand_untrusted {number count behind : Nat} {sendFragment : Bool}
    {data : List UInt8} (h : Untrusted host r) (hdata : data.length ≤ host.maximumPacketSize)
    (hcommand : queueIncomingCommand full r number sendFragment data count =
      .command r' behind) : Untrusted host r' := by
  have hdiscard : ∀ n, discardCommand n ≠ .command r' behind := by
    intro n
    unfold discardCommand
    split <;> simp
  unfold queueIncomingCommand at hcommand
  dsimp only at hcommand
  split at hcommand
  · exact absurd hcommand (hdiscard _)
  split at hcommand
  · exact absurd hcommand (hdiscard _)
  split at hcommand
  · exact absurd hcommand (hdiscard _)
  split at hcommand
  · exact absurd hcommand (hdiscard _)
  split at hcommand
  · cases hcommand
  split at hcommand
  · cases hcommand
  · rename_i hmaximum
    obtain ⟨rfl, -⟩ := Queued.command.inj hcommand
    exact untrusted_dispatch (untrusted_insert h
      ⟨List.length_replicate, List.count_replicate_self.symm, hdata, Nat.not_lt.mp hmaximum⟩ number)

/-- The loop takes packets from the front of the queue, with nothing missing. -/
theorem dispatchLoop_split (current : Nat) (l : List Incoming) :
    l = (dispatchLoop current l).2.1 ++ (dispatchLoop current l).2.2 ∧
      ∀ e ∈ (dispatchLoop current l).2.1, e.fragmentsRemaining = 0 := by
  induction l generalizing current with
  | nil => exact ⟨rfl, by simp [dispatchLoop]⟩
  | cons e l ih =>
    rw [dispatchLoop]
    split
    · exact ⟨rfl, by simp⟩
    · rename_i hcond
      obtain ⟨hsplit, hready⟩ := ih e.last
      refine ⟨congrArg (e :: ·) hsplit, fun x hx => ?_⟩
      rcases List.mem_cons.mp hx with rfl | hx
      · omega
      · exact hready x hx

/-- The place of a command is counted from the back, so that taking packets from the front leaves
a packet in fragments where it is. -/
theorem fromBack_dispatch {l₁ l₂ : List Incoming} (current : Nat) (he : 0 < e.fragmentsRemaining) :
    fromBack (dispatchLoop current (l₁ ++ e :: l₂)).2.2 l₂.length = some e := by
  obtain ⟨hsplit, hready⟩ := dispatchLoop_split current (l₁ ++ e :: l₂)
  have hback : ∀ l : List Incoming, fromBack (l ++ e :: l₂) l₂.length = some e := fun l => by
    simp [fromBack]
  rcases List.append_eq_append_iff.mp hsplit with ⟨l, hmoved, hrest⟩ | ⟨l, -, hrest⟩
  · rcases l with - | ⟨x, l⟩
    · rw [List.nil_append] at hrest
      rw [← hrest]
      exact hback []
    · obtain ⟨rfl, -⟩ := List.cons.inj hrest
      have := hready e (by rw [hmoved]; simp)
      omega
  · rw [hrest]
    exact hback l

theorem queueIncomingCommand_fromBack {number count behind : Nat} {sendFragment : Bool}
    {data : List UInt8} (hcount : 0 < count)
    (hcommand : queueIncomingCommand full r number sendFragment data count = .command r' behind) :
    ∃ e, fromBack r'.incomingReliableCommands behind = some e ∧ e.fragmentCount = count ∧
      e.data = data := by
  unfold queueIncomingCommand discardCommand at hcommand
  dsimp only at hcommand
  simp only [if_pos hcount] at hcommand
  split at hcommand
  · cases hcommand
  split at hcommand
  · cases hcommand
  split at hcommand
  · cases hcommand
  split at hcommand
  · cases hcommand
  split at hcommand
  · cases hcommand
  split at hcommand
  · cases hcommand
  · obtain ⟨rfl, rfl⟩ := Queued.command.inj hcommand
    exact ⟨_, fromBack_dispatch _ hcount, rfl, rfl⟩

/-- A fragment is written into its packet, which keeps its size. -/
theorem length_writeFragment {fragmentNumber fragmentOffset : Nat} {data : List UInt8}
    (hoffset : fragmentOffset ≤ e.data.length) :
    (writeFragment fragmentNumber fragmentOffset data e).data.length = e.data.length := by
  simp only [writeFragment, List.length_append, List.length_take, List.length_drop]
  omega

/-- A fragment lies within its packet, and has not been counted before. -/
theorem Tracked.writeFragment {fragmentNumber fragmentOffset : Nat} {data : List UInt8}
    (h : Tracked host e) (hnumber : fragmentNumber < e.fragmentCount)
    (hbit : e.fragments[fragmentNumber]? ≠ some true) (hoffset : fragmentOffset ≤ e.data.length) :
    Tracked host (writeFragment fragmentNumber fragmentOffset data e) := by
  have hlt : fragmentNumber < e.fragments.length := h.length ▸ hnumber
  have hfalse : e.fragments[fragmentNumber] = false := by
    rw [List.getElem?_eq_getElem hlt] at hbit
    simpa using hbit
  refine ⟨?_, ?_, ?_, h.count⟩
  · simpa [Enet.writeFragment] using h.length
  · simp [Enet.writeFragment, h.remaining, List.count_set hlt, hfalse]
  · rw [length_writeFragment hoffset]
    exact h.size

theorem addFragment_untrusted {behind fragmentNumber fragmentOffset : Nat} {data : List UInt8}
    (h : Untrusted host r)
    (hfits : ∀ e, fromBack r.incomingReliableCommands behind = some e →
      fragmentNumber < e.fragmentCount ∧ fragmentOffset ≤ e.data.length) :
    Untrusted host (addFragment r behind fragmentNumber fragmentOffset data) := by
  unfold addFragment
  split
  · exact h
  rename_i e he
  obtain ⟨hnumber, hoffset⟩ := hfits e he
  split
  · exact h
  rename_i hbit
  have hwritten : Untrusted host { r with
      incomingReliableCommands := modifyBack r.incomingReliableCommands behind
        (Enet.writeFragment fragmentNumber fragmentOffset data) } := by
    refine ⟨fun x hx => ?_, h.complete, h.chain⟩
    obtain ⟨i, hi⟩ := List.getElem?_of_mem (List.mem_reverse.mp hx)
    rw [List.getElem?_modify] at hi
    split at hi
    · rename_i hbi
      subst hbi
      rw [show r.incomingReliableCommands.reverse[behind]? = some e from he] at hi
      obtain rfl := Option.some.inj hi
      exact (h.queue e (List.mem_reverse.mp (List.mem_of_getElem? he))).writeFragment hnumber hbit
        hoffset
    · have hsame : r.incomingReliableCommands.reverse[i]? = some x := by simpa using hi
      exact h.queue x (List.mem_reverse.mp (List.mem_of_getElem? hsame))
  dsimp only
  split
  · exact untrusted_dispatch hwritten
  · exact hwritten

/-- The command a scan has found is the last one it has not passed. -/
theorem fromBack_found {number current : Nat} (h : found number current l = some e) :
    fromBack l (after number current l).length = some e := by
  have hlast := (Option.filter_eq_some_iff.mp h).1
  have hsplit : before number current l ++ after number current l = l :=
    List.rdropWhile_append_rtakeWhile
  obtain ⟨l₁, hl₁⟩ := List.getLast?_eq_some_iff.mp hlast
  have hl : l = l₁ ++ e :: after number current l := by
    rw [hl₁, List.append_assoc, List.singleton_append] at hsplit
    exact hsplit.symm
  have hback : fromBack (l₁ ++ e :: after number current l) (after number current l).length =
      some e := by simp [fromBack]
  rwa [← hl] at hback

/-! ## Shapes -/

/-- Packets that are handed over keep their shapes and their order. -/
theorem shapes_dispatch (r : Receiver) :
    (dispatchIncomingReliableCommands r).shapes = r.shapes := by
  have hsplit := (dispatchLoop_split r.incomingReliableSequenceNumber
    r.incomingReliableCommands).1
  unfold Receiver.shapes dispatchIncomingReliableCommands
  dsimp only
  rw [List.append_assoc, ← hsplit]

/-- A command that is queued adds a packet of its shape. -/
theorem queueIncomingCommand_inserted {number count behind : Nat} {sendFragment : Bool}
    {data : List UInt8} (hcommand : queueIncomingCommand full r number sendFragment data count =
      .command r' behind) : Inserted ⟨number, count, count, data.length⟩ r.shapes r'.shapes := by
  have hdiscard : ∀ n, discardCommand n ≠ .command r' behind := by
    intro n
    unfold discardCommand
    split <;> simp
  unfold queueIncomingCommand at hcommand
  dsimp only at hcommand
  split at hcommand
  · exact absurd hcommand (hdiscard _)
  split at hcommand
  · exact absurd hcommand (hdiscard _)
  split at hcommand
  · exact absurd hcommand (hdiscard _)
  split at hcommand
  · exact absurd hcommand (hdiscard _)
  split at hcommand
  · cases hcommand
  split at hcommand
  · cases hcommand
  · obtain ⟨rfl, -⟩ := Queued.command.inj hcommand
    have hqueue : r.incomingReliableCommands =
        before number r.incomingReliableSequenceNumber r.incomingReliableCommands ++
          after number r.incomingReliableSequenceNumber r.incomingReliableCommands :=
      List.rdropWhile_append_rtakeWhile.symm
    refine .inr ⟨(r.dispatchedCommands ++ before number r.incomingReliableSequenceNumber
      r.incomingReliableCommands).map Incoming.shape, (after number
        r.incomingReliableSequenceNumber r.incomingReliableCommands).map Incoming.shape, ?_, ?_⟩
    · rw [← List.map_append, List.append_assoc, ← hqueue]
      rfl
    · rw [shapes_dispatch]
      unfold Receiver.shapes
      simp only [List.map_append, List.map_cons, List.append_assoc, Incoming.shape,
        List.length_replicate]

/-- A fragment keeps the shape of its packet. -/
theorem shape_writeFragment {fragmentNumber fragmentOffset : Nat} {data : List UInt8}
    (hoffset : fragmentOffset ≤ e.data.length) :
    (writeFragment fragmentNumber fragmentOffset data e).shape = e.shape := by
  unfold Incoming.shape
  rw [length_writeFragment hoffset]
  simp only [writeFragment, List.length_set]

theorem shapes_addFragment {behind fragmentNumber fragmentOffset : Nat} {data : List UInt8}
    (hfits : ∀ e, fromBack r.incomingReliableCommands behind = some e →
      fragmentOffset ≤ e.data.length) :
    (addFragment r behind fragmentNumber fragmentOffset data).shapes = r.shapes := by
  unfold addFragment
  split
  · rfl
  rename_i e he
  split
  · rfl
  have hwritten : ({ r with
      incomingReliableCommands := modifyBack r.incomingReliableCommands behind
        (writeFragment fragmentNumber fragmentOffset data) } : Receiver).shapes = r.shapes := by
    unfold Receiver.shapes modifyBack
    rw [List.map_append, List.map_append, List.map_reverse]
    have hmap : (r.incomingReliableCommands.reverse.modify behind
        (writeFragment fragmentNumber fragmentOffset data)).map Incoming.shape =
          r.incomingReliableCommands.reverse.map Incoming.shape := by
      refine List.ext_getElem? fun i => ?_
      rw [List.getElem?_map, List.getElem?_map, List.getElem?_modify]
      by_cases hi : behind = i
      · subst hi
        rw [show r.incomingReliableCommands.reverse[behind]? = some e from he]
        simp only [Option.map_eq_map, Option.map_some, if_true]
        exact congrArg some (shape_writeFragment (hfits e he))
      · simp [hi]
    rw [hmap, List.map_reverse, List.reverse_reverse]
  dsimp only
  split
  · exact (shapes_dispatch _).trans hwritten
  · exact hwritten

/-- One command adds a packet of its shape, or none; the others keep their shapes. -/
theorem receive_inserted (host : Host) (full : Bool) (r : Receiver) (c : Command) :
    Inserted c.shape r.shapes (receive host full r c).1.shapes := by
  obtain ⟨number, body⟩ := c
  unfold receive
  split
  · exact .inl rfl
  rename_i r' hr'
  dsimp only
  unfold handleCommand at hr'
  unfold Command.shape
  cases body with
  | sendReliable data =>
    dsimp only at hr' ⊢
    unfold handleSendReliable at hr'
    split at hr'
    · cases hr'
    split at hr'
    · cases hr'
    split at hr'
    · cases hr'
    · obtain rfl := Option.some.inj hr'
      exact .inl rfl
    · rename_i hcommand
      obtain rfl := Option.some.inj hr'
      exact queueIncomingCommand_inserted hcommand
  | sendFragment start count fragment total offset data =>
    unfold handleSendFragment at hr'
    dsimp only at hr' ⊢
    split at hr'
    · cases hr'
    split at hr'
    · cases hr'
    split at hr'
    · obtain rfl := Option.some.inj hr'
      exact .inl rfl
    split at hr'
    · cases hr'
    rename_i hchecks
    split at hr'
    · rename_i e hfound
      split at hr'
      · cases hr'
      obtain rfl := Option.some.inj hr'
      refine .inl (shapes_addFragment fun x hx => ?_)
      rw [fromBack_found hfound] at hx
      obtain rfl := Option.some.inj hx
      omega
    · split at hr'
      · cases hr'
      · cases hr'
      · rename_i r₁ behind hcommand
        obtain rfl := Option.some.inj hr'
        have hinserted := queueIncomingCommand_inserted hcommand
        rw [List.length_replicate] at hinserted
        rw [shapes_addFragment fun x hx => ?_]
        · exact hinserted
        · obtain ⟨e, he, -, hdata⟩ := queueIncomingCommand_fromBack (by omega) hcommand
          rw [he] at hx
          obtain rfl := Option.some.inj hx
          rw [hdata, List.length_replicate]
          omega

/-! ## Commands -/

theorem handleSendReliable_untrusted {number : Nat} {data : List UInt8} (h : Untrusted host r)
    (hsome : handleSendReliable host full r number data = some r') : Untrusted host r' := by
  unfold handleSendReliable at hsome
  split at hsome
  · cases hsome
  split at hsome
  · cases hsome
  rename_i hsize
  split at hsome
  · cases hsome
  · obtain rfl := Option.some.inj hsome
    exact h
  · rename_i hcommand
    obtain rfl := Option.some.inj hsome
    exact queueIncomingCommand_untrusted h (Nat.not_lt.mp hsize) hcommand

theorem handleSendFragment_untrusted {start count fragment total offset : Nat}
    {data : List UInt8} (h : Untrusted host r)
    (hsome : handleSendFragment host full r start count fragment total offset data = some r') :
    Untrusted host r' := by
  unfold handleSendFragment at hsome
  dsimp only at hsome
  split at hsome
  · cases hsome
  split at hsome
  · cases hsome
  split at hsome
  · obtain rfl := Option.some.inj hsome
    exact h
  split at hsome
  · cases hsome
  rename_i hchecks
  have hnumber : fragment < count := by omega
  have hoffset : offset < total := by omega
  have htotal : total ≤ host.maximumPacketSize := by omega
  split at hsome
  · rename_i c hfound
    split at hsome
    · cases hsome
    rename_i hsame
    obtain rfl := Option.some.inj hsome
    refine addFragment_untrusted h fun x hx => ?_
    rw [fromBack_found hfound] at hx
    obtain rfl := Option.some.inj hx
    omega
  · split at hsome
    · cases hsome
    · cases hsome
    · rename_i r₁ behind hcommand
      obtain rfl := Option.some.inj hsome
      have hdata : (List.replicate total host.unset).length ≤ host.maximumPacketSize := by
        rwa [List.length_replicate]
      refine addFragment_untrusted (queueIncomingCommand_untrusted h hdata hcommand) fun x hx => ?_
      obtain ⟨e, he, hecount, hedata⟩ :=
        queueIncomingCommand_fromBack (Nat.zero_lt_of_lt hnumber) hcommand
      rw [he] at hx
      obtain rfl := Option.some.inj hx
      rw [hecount, hedata, List.length_replicate]
      exact ⟨hnumber, hoffset.le⟩

/-- One command of any peer. -/
theorem untrusted_receive (h : Untrusted host r) (c : Command) :
    Untrusted host (receive host full r c).1 := by
  unfold receive
  split
  · exact h
  · rename_i r' hr'
    unfold handleCommand at hr'
    split at hr'
    · exact handleSendReliable_untrusted h hr'
    · exact handleSendFragment_untrusted h hr'

/-- What a peer may do to a channel: send a command, whatever it holds. -/
def receiveAny (host : Host) (r : Receiver) (x : Bool × Command) : Receiver :=
  (receive host x.1 r x.2).1

/-- **Any input.** Whatever commands arrive on a channel, and however full the queues are: the
packets delivered are numbered one after the other from 1 on, up to the number the channel has
reached; every packet in fragments has all of them, each counted once; the bits and counters of the
packets in the queue agree; and whatever comes next changes the size of no packet, and the number of
its bits, though it may bring a packet of its own. -/
theorem receive_untrusted (host : Host) (s : PeerState) (xs : List (Bool × Command)) :
    let r := Machine.run (receiveAny host) ⟨s, 0, [], []⟩ xs
    Chain 0 r.dispatchedCommands r.incomingReliableSequenceNumber ∧
      (∀ e ∈ r.dispatchedCommands, e.fragments = List.replicate e.fragmentCount true ∧
        e.data.length ≤ host.maximumPacketSize) ∧
      (∀ e ∈ r.incomingReliableCommands, e.fragments.length = e.fragmentCount ∧
        e.fragmentsRemaining = e.fragments.count false ∧
        e.data.length ≤ host.maximumPacketSize) ∧
      ∀ x, Inserted x.2.shape r.shapes (receiveAny host r x).shapes := by
  intro r
  have hinit : Untrusted host ⟨s, 0, [], []⟩ := ⟨by simp, by simp, rfl⟩
  have h : Untrusted host r := Machine.run_inv (P := Untrusted host)
    (fun r x hr => untrusted_receive hr x.2) hinit xs
  refine ⟨h.chain, fun e he => ?_, fun e he => ?_, fun x => receive_inserted host x.1 r x.2⟩
  · obtain ⟨htracked, hbits⟩ := h.complete e he
    exact ⟨List.eq_replicate_iff.mpr ⟨htracked.length, hbits⟩, htracked.size⟩
  · have htracked := h.queue e he
    exact ⟨htracked.length, htracked.remaining, htracked.size⟩

end Enet

end Zuckerserv
