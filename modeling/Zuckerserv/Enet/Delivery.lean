import Zuckerserv.Enet.Queue

/-!
# What a command does to the receiving end

* `Held.writeFragment` — a fragment is written into its packet.
* `queueIncomingCommand_spec` — a new packet is put where it belongs.
* `receive_spec` — whatever command of the sequence arrives, the receiver has delivered a
  beginning of the sequence; and a command it acknowledges has arrived.
-/

namespace Zuckerserv

namespace Enet

variable {f n d j k : Nat} {packets : List Packet} {p : Packet} {r r' : Receiver} {e : Incoming}
  {q q₁ q₂ : List (Nat × Incoming)} {host : Host} {full : Bool}

/-! ## Fragments -/

theorem fromBack_append (l₁ l₂ : List Incoming) : fromBack (l₁ ++ e :: l₂) l₂.length = some e := by
  simp [fromBack]

theorem modifyBack_append (l₁ l₂ : List Incoming) (g : Incoming → Incoming) :
    modifyBack (l₁ ++ e :: l₂) l₂.length g = l₁ ++ g e :: l₂ := by
  have hmodify : (l₂.reverse ++ [e] ++ l₁.reverse).modify l₂.length g =
      l₂.reverse ++ [g e] ++ l₁.reverse := by
    rw [List.append_assoc, List.modify_eq_take_cons_drop (by simp)]
    simp [List.drop_append]
  rw [modifyBack, List.reverse_append, List.reverse_cons, hmodify]
  simp

/-- The bytes of fragment `k`, as many of them as the packet has room for. -/
theorem take_fragment : ((p.drop (k * f)).take f).take (p.length - k * f) =
    (p.drop (k * f)).take f := by
  refine List.take_of_length_le ?_
  rw [List.length_take, List.length_drop]
  exact Nat.min_le_right ..

theorem Held.writeFragment {s : Nat} (hf : 0 < f) (h : Held f s p e) (hlt : f < p.length)
    (hk : k < commandCount f p) (hbit : e.fragments[k]? ≠ some true) :
    Held f s p (writeFragment k (k * f) ((p.drop (k * f)).take f) e) := by
  obtain ⟨hlength, hremaining⟩ := h.bits hlt
  obtain ⟨hdata, hbytes⟩ := h.bytes hlt
  have hk' : k < e.fragments.length := hlength ▸ hk
  have hfalse : e.fragments[k] = false := by
    rw [List.getElem?_eq_getElem hk'] at hbit
    simpa using hbit
  refine ⟨h.number, fun hle => absurd hlt (Nat.not_lt.mpr hle), h.fragment, fun _ => ⟨?_, ?_⟩,
    fun _ => ⟨?_, ?_⟩⟩
  · simpa [Enet.writeFragment] using hlength
  · simp [Enet.writeFragment, hremaining, List.count_set hk', hfalse]
  · have hroom := mul_lt_length hf hlt hk
    simp only [Enet.writeFragment, hdata, take_fragment, List.length_append, List.length_take,
      List.length_drop]
    omega
  · intro i hi hset
    simp only [Enet.writeFragment, hdata, take_fragment] at hset ⊢
    have hroom := mul_lt_length hf hlt hk
    have hlen : (e.data.take (k * f)).length = k * f := by rw [List.length_take]; omega
    rw [List.append_assoc, List.getElem?_append, hlen]
    rcases Nat.lt_or_ge i (k * f) with hlow | hlow
    · -- the bytes in front of the fragment
      have hne : k ≠ i / f := by
        have := (Nat.div_lt_iff_lt_mul hf).mpr hlow
        omega
      rw [if_pos hlow, List.getElem?_take_of_lt hlow]
      rw [List.getElem?_set_ne hne] at hset
      exact hbytes i hi hset
    rw [if_neg (Nat.not_lt.mpr hlow), List.getElem?_append, List.length_take, List.length_drop]
    rcases Nat.lt_or_ge (i - k * f) (min f (p.length - k * f)) with hin | hout
    · -- the bytes of the fragment
      rw [if_pos hin, List.getElem?_take_of_lt (by omega), List.getElem?_drop]
      congr 1
      omega
    · -- the bytes behind it
      have hbehind : k * f + f ≤ i := by omega
      have hne : k ≠ i / f := by
        have := (Nat.le_div_iff_mul_le hf).mpr (Nat.succ_mul k f ▸ hbehind)
        omega
      rw [if_neg (Nat.not_lt.mpr hout), List.getElem?_drop]
      rw [List.getElem?_set_ne hne] at hset
      rw [← hbytes i hi hset]
      congr 1
      omega

/-- Another command in the place of one that is held. -/
theorem Queue.replace {e' : Incoming} (h : Queue f packets d (q₁ ++ (j, e) :: q₂))
    (hheld : ∀ p, packets[j]? = some p → Held f (start f packets j) p e →
      Held f (start f packets j) p e') : Queue f packets d (q₁ ++ (j, e') :: q₂) := by
  refine ⟨?_, fun x hx => ?_⟩
  · have := h.sorted
    simpa using this
  · rcases List.mem_append.mp hx with hx₁ | hx₂
    · exact h.held x (List.mem_append_left _ hx₁)
    rcases List.mem_cons.mp hx₂ with rfl | hx₂
    · obtain ⟨p, hp, hd, hw, he⟩ := h.held (j, e) (by simp)
      exact ⟨p, hp, hd, hw, hheld p hp he⟩
    · exact h.held x (by simp [hx₂])

/-- Another packet where it belongs. -/
theorem Queue.insert (h : Queue f packets d (q₁ ++ q₂)) (h₁ : ∀ x ∈ q₁, x.1 < j)
    (h₂ : ∀ x ∈ q₂, j < x.1) (hp : packets[j]? = some p) (hd : d ≤ j)
    (hwindow : start f packets j / 4096 < numbers f packets d / 4096 + 7)
    (hheld : Held f (start f packets j) p e) : Queue f packets d (q₁ ++ (j, e) :: q₂) := by
  refine ⟨?_, fun x hx => ?_⟩
  · have hsorted := h.sorted
    rw [List.map_append, List.pairwise_append] at hsorted
    rw [List.map_append, List.map_cons, List.pairwise_append, List.pairwise_cons]
    refine ⟨hsorted.1, ⟨?_, hsorted.2.1⟩, ?_⟩
    · intro y hy
      obtain ⟨x, hx, rfl⟩ := List.mem_map.mp hy
      exact h₂ x hx
    · intro y hy z hz
      rcases List.mem_cons.mp hz with rfl | hz
      · obtain ⟨x, hx, rfl⟩ := List.mem_map.mp hy
        exact h₁ x hx
      · exact hsorted.2.2 y hy z hz
  · rcases List.mem_append.mp hx with hx₁ | hx₂
    · exact h.held x (List.mem_append_left _ hx₁)
    rcases List.mem_cons.mp hx₂ with rfl | hx₂
    · exact ⟨p, hp, hd, hwindow, hheld⟩
    · exact h.held x (List.mem_append_right _ hx₂)

/-- A fragment of a packet that is in the queue. -/
theorem addFragment_spec (hf : 0 < f) (h : Delivered f packets r d (q₁ ++ (j, e) :: q₂))
    (hplace : Place f packets n j k p) (hlt : f < p.length) :
    ∃ d' q', Delivered f packets
        (addFragment r q₂.length k (k * f) ((p.drop (k * f)).take f)) d' q' ∧
      Grows d (q₁ ++ (j, e) :: q₂) d' q' ∧ Arrived f packets d' q' n ∧
      (addFragment r q₂.length k (k * f) ((p.drop (k * f)).take f)).state = r.state := by
  have hqueue : r.incomingReliableCommands = q₁.map Prod.snd ++ e :: q₂.map Prod.snd := by
    rw [h.queue]
    simp
  obtain ⟨p', hp', -, -, hheld⟩ := h.items.held (j, e) (by simp)
  obtain rfl : p = p' := Option.some.inj (hplace.packet.symm.trans hp')
  have hback := fromBack_append (e := e) (q₁.map Prod.snd) (q₂.map Prod.snd)
  rw [List.length_map, ← hqueue] at hback
  unfold addFragment
  rw [hback]
  dsimp only
  by_cases hbit : e.fragments[k]? = some true
  · rw [if_pos hbit]
    exact ⟨d, _, h, Grows.refl, ⟨j, k, p, hplace, Or.inr ⟨(j, e), by simp, rfl, Or.inr hbit⟩⟩, rfl⟩
  rw [if_neg hbit]
  -- the packet with the fragment in it
  let e' := writeFragment k (k * f) ((p.drop (k * f)).take f) e
  have hbits : e'.fragments = e.fragments.set k true := rfl
  have hset : e'.fragments[k]? = some true := by
    rw [hbits, List.getElem?_set_self ((h.items.held (j, e) (by simp)).elim
      fun _ _ => (hheld.bits hlt).1 ▸ hplace.lt)]
  have hmodify := modifyBack_append (e := e) (q₁.map Prod.snd) (q₂.map Prod.snd)
    (writeFragment k (k * f) ((p.drop (k * f)).take f))
  rw [List.length_map, ← hqueue] at hmodify
  have hitems : Queue f packets d (q₁ ++ (j, e') :: q₂) := h.items.replace fun p' hp' he => by
    obtain rfl : p = p' := Option.some.inj (hplace.packet.symm.trans hp')
    exact he.writeFragment hf hlt hplace.lt hbit
  have hqueuing : Queuing f packets { r with
      incomingReliableCommands := modifyBack r.incomingReliableCommands q₂.length
        (writeFragment k (k * f) ((p.drop (k * f)).take f)) } d (q₁ ++ (j, e') :: q₂) := by
    refine ⟨h.le, h.current, ?_, hitems, h.dispatched⟩
    rw [List.map_append, List.map_cons]
    exact hmodify
  have hgrows : Grows d (q₁ ++ (j, e) :: q₂) d (q₁ ++ (j, e') :: q₂) := by
    refine ⟨Nat.le_refl d, fun x hx => Or.inr ?_⟩
    rcases List.mem_append.mp hx with hx | hx
    · exact ⟨x, by simp [hx], rfl, fun _ h => h⟩
    rcases List.mem_cons.mp hx with rfl | hx
    · refine ⟨(j, e'), by simp, rfl, fun i hi => ?_⟩
      rw [hbits]
      by_cases hik : k = i
      · exact hik ▸ hset
      · rw [List.getElem?_set_ne hik]
        exact hi
    · exact ⟨x, by simp [hx], rfl, fun _ h => h⟩
  have harrived : Arrived f packets d (q₁ ++ (j, e') :: q₂) n :=
    ⟨j, k, p, hplace, Or.inr ⟨(j, e'), by simp, rfl, Or.inr hset⟩⟩
  split
  · obtain ⟨d', taken, q', heq, htaken, hle, hdelivered⟩ := delivered_dispatch hf hqueuing
    have hgrows' : Grows d (q₁ ++ (j, e') :: q₂) d' q' :=
      heq ▸ grows_dispatch hle fun x hx => (htaken x hx).1
    exact ⟨d', q', hdelivered, hgrows.trans hgrows', harrived.mono hgrows', rfl⟩
  · rename_i hremaining
    refine ⟨d, _, ⟨hqueuing, ?_⟩, hgrows, harrived, rfl⟩
    intro x hx hxd
    rcases q₁ with - | ⟨y, q₁⟩
    · obtain rfl : (j, e') = x := Option.some.inj hx
      exact hremaining
    · exact h.waiting x hx hxd

/-! ## Packets -/

/-- A command whose turn has not come and whose window is one of the seven. -/
theorem queueIncomingCommand_spec (full : Bool) {sendFragment : Bool} {data : List UInt8}
    {count : Nat} (hf : 0 < f) (h : Delivered f packets r d q) (hp : packets[j]? = some p) (hd : d ≤ j)
    (hwindow : start f packets j / 4096 < numbers f packets d / 4096 + 7)
    (hheld : Held f (start f packets j) p
      { reliableSequenceNumber := start f packets j % 65536, sendFragment, fragmentCount := count
        fragmentsRemaining := count, fragments := List.replicate count false, data }) :
    (queueIncomingCommand full r (start f packets j % 65536) sendFragment data count =
        discardCommand count ∧ (r.state = .disconnectLater ∨ ∃ e, (j, e) ∈ q)) ∨
      queueIncomingCommand full r (start f packets j % 65536) sendFragment data count =
        .notifyError ∨
      ∃ q₁ q₂ taken e d' q' r', q = q₁ ++ q₂ ∧ q₁ ++ (j, e) :: q₂ = taken ++ q' ∧
        e.fragmentsRemaining = count ∧ (∀ x ∈ taken, x.1 < d' ∧ x.2.fragmentsRemaining = 0) ∧
        d ≤ d' ∧ Delivered f packets r' d' q' ∧ r'.state = r.state ∧
        queueIncomingCommand full r (start f packets j % 65536) sendFragment data count =
          .command r' q₂.length := by
  have hmono := numbers_mono f packets hd
  have hinside : ¬ outsideWindows (start f packets j % 65536) (numbers f packets d % 65536) := by
    rw [outsideWindows_iff (by rw [start_eq]; omega) (by omega), not_not, start_eq]
    rw [start_eq] at hwindow
    omega
  have hne : start f packets j % 65536 ≠ numbers f packets d % 65536 := by
    rw [start_eq] at hwindow ⊢
    omega
  unfold queueIncomingCommand
  dsimp only
  by_cases hstate : r.state = .disconnectLater
  · exact Or.inl ⟨if_pos hstate, Or.inl hstate⟩
  rw [if_neg hstate, h.current, h.queue, if_neg hinside, if_neg hne]
  obtain ⟨q₁, q₂, h₁, h₂, hafter, hcase⟩ := found_spec hf h.items hp hd hwindow
  rcases hcase with ⟨rfl, hbefore, hnone⟩ | ⟨e, rfl, hsome⟩
  · rw [hnone, if_neg (by simp)]
    by_cases hfull : full = true
    · exact Or.inr (Or.inl (if_pos hfull))
    rw [if_neg hfull]
    by_cases hcount : MAXIMUM_FRAGMENT_COUNT < count
    · exact Or.inr (Or.inl (if_pos hcount))
    rw [if_neg hcount, hbefore, hafter, List.length_map]
    refine Or.inr (Or.inr ?_)
    obtain ⟨d', taken, q', heq, htaken, hle, hdelivered⟩ := delivered_dispatch (r := { r with
        incomingReliableSequenceNumber := numbers f packets d % 65536
        incomingReliableCommands := q₁.map Prod.snd ++
          { reliableSequenceNumber := start f packets j % 65536, sendFragment,
            fragmentCount := count, fragmentsRemaining := count,
            fragments := List.replicate count false, data } :: q₂.map Prod.snd }) hf
      ⟨h.le, rfl, by rw [List.map_append, List.map_cons],
        h.items.insert h₁ h₂ hp hd hwindow hheld, h.dispatched⟩
    exact ⟨q₁, q₂, taken, _, d', q', _, rfl, heq, rfl, htaken, hle, hdelivered, rfl, rfl⟩
  · rw [hsome]
    exact Or.inl ⟨if_pos rfl, Or.inr ⟨e, by simp⟩⟩

/-- Handling a command of packet `j`. -/
structure Handled (f : Nat) (packets : List Packet) (r r' : Receiver) (d : Nat)
    (q : List (Nat × Incoming)) (n j : Nat) : Prop where
  state : r'.state = r.state
  step : ∃ d' q', Delivered f packets r' d' q' ∧ Grows d q d' q' ∧
    (r.state = .connected →
      start f packets j / 4096 < numbers f packets d / 4096 + 7 → Arrived f packets d' q' n)
  outside : ¬ start f packets j / 4096 < numbers f packets d / 4096 + 7 → r' = r

/-- A command that changes nothing. -/
theorem Handled.same (h : Delivered f packets r d q)
    (harrived : r.state = .connected →
      start f packets j / 4096 < numbers f packets d / 4096 + 7 → Arrived f packets d q n) :
    Handled f packets r r d q n j :=
  ⟨rfl, ⟨d, q, h, Grows.refl, harrived⟩, fun _ => rfl⟩

/-- The windows tell whether the turn of a packet has passed. -/
theorem outside_of_lt (hp : packets[j]? = some p) (hcount : 0 < commandCount f p) (hj : j < d)
    (hlow : numbers f packets d ≤ start f packets j + 36864) :
    outsideWindows (start f packets j % 65536) (numbers f packets d % 65536) ∨
      commandCount f p = 1 ∧ start f packets j = numbers f packets d := by
  have hlt := numbers_lt (f := f) hp hj
  rw [outsideWindows_iff hlow (by rw [start_eq]; omega)]
  rw [start_eq] at *
  omega

/-- A packet in two fragments or more whose command is inside the windows has not been delivered:
the windows let the last number through only for a packet in one command. -/
theorem le_of_inside (hf : 0 < f) (hp : packets[j]? = some p) (hlt : f < p.length)
    (hlow : numbers f packets d ≤ start f packets j + 36864)
    (hin : ¬ outsideWindows (start f packets j % 65536) (numbers f packets d % 65536)) :
    d ≤ j := by
  by_contra hjd
  rcases outside_of_lt hp (commandCount_pos hf) (Nat.not_le.mp hjd) hlow with hout | ⟨hone, -⟩
  · exact hin hout
  · have := div_lt_commandCount hf hlt hlt
    rw [hone, Nat.div_self hf] at this
    exact Nat.lt_irrefl 1 this

theorem handleSendReliable_spec (hf : 0 < f) (h : Delivered f packets r d q)
    (hplace : Place f packets n j k p) (hle : p.length ≤ f)
    (hlow : numbers f packets d ≤ start f packets j + 36864)
    (hhigh : start f packets j < numbers f packets d + 65536)
    (hsome : handleSendReliable host full r (start f packets j % 65536) p = some r') :
    Handled f packets r r' d q n j := by
  have hp := hplace.packet
  unfold handleSendReliable at hsome
  by_cases htakes : takesData r
  case neg =>
    rw [if_pos htakes] at hsome
    cases hsome
  rw [if_neg (not_not.mpr htakes)] at hsome
  split at hsome
  · cases hsome
  rcases Nat.lt_or_ge j d with hjd | hdj
  · -- the packet has been delivered
    have hdiscard : queueIncomingCommand full r (start f packets j % 65536) false p 0 =
        .dummyCommand := by
      unfold queueIncomingCommand
      dsimp only
      rw [h.current]
      rcases outside_of_lt hp (commandCount_pos hf) hjd hlow with hout | ⟨-, heq⟩
      · simp [hout, discardCommand]
      · simp [heq, discardCommand]
    rw [hdiscard] at hsome
    obtain rfl : r = r' := Option.some.inj hsome
    exact Handled.same h fun _ _ => ⟨j, k, p, hplace, Or.inl hjd⟩
  by_cases hwindow : start f packets j / 4096 < numbers f packets d / 4096 + 7
  · have hheld : Held f (start f packets j) p
        { reliableSequenceNumber := start f packets j % 65536, sendFragment := false
          fragmentCount := 0, fragmentsRemaining := 0, fragments := List.replicate 0 false
          data := p } :=
      ⟨rfl, fun _ => ⟨rfl, rfl, rfl, rfl⟩, fun hlt => absurd hlt (Nat.not_lt.mpr hle),
        fun hlt => absurd hlt (Nat.not_lt.mpr hle), fun hlt => absurd hlt (Nat.not_lt.mpr hle)⟩
    rcases queueIncomingCommand_spec full hf h hp hdj hwindow hheld with
      ⟨hdiscard, hwhy⟩ | herror | ⟨q₁, q₂, taken, e, d', q', r₁, rfl, heq, -, htaken, hdd', hr₁,
        hstate, hcommand⟩
    · rw [hdiscard] at hsome
      obtain rfl : r = r' := Option.some.inj hsome
      refine Handled.same h fun hconnected _ => ?_
      rcases hwhy with hlater | ⟨e, he⟩
      · rw [hconnected] at hlater
        cases hlater
      · exact ⟨j, k, p, hplace, Or.inr ⟨(j, e), he, rfl, Or.inl hle⟩⟩
    · rw [herror] at hsome
      cases hsome
    · rw [hcommand] at hsome
      obtain rfl : r₁ = r' := Option.some.inj hsome
      have hgrows : Grows d (q₁ ++ (j, e) :: q₂) d' q' :=
        heq ▸ grows_dispatch hdd' fun x hx => (htaken x hx).1
      refine ⟨hstate, ⟨d', q', hr₁, ?_, fun _ _ => ?_⟩, fun hno => absurd hwindow hno⟩
      · refine ⟨hdd', fun x hx => hgrows.held x ?_⟩
        rcases List.mem_append.mp hx with hx | hx <;> simp [hx]
      · exact Arrived.mono ⟨j, k, p, hplace, Or.inr ⟨(j, e), by simp, rfl, Or.inl hle⟩⟩ hgrows
  · have hout : outsideWindows (start f packets j % 65536) (numbers f packets d % 65536) :=
      (outsideWindows_iff hlow hhigh).mpr fun hin => hwindow hin.2
    have hdiscard : queueIncomingCommand full r (start f packets j % 65536) false p 0 =
        .dummyCommand := by
      unfold queueIncomingCommand
      dsimp only
      rw [h.current]
      simp [hout, discardCommand]
    rw [hdiscard] at hsome
    obtain rfl : r = r' := Option.some.inj hsome
    exact Handled.same h fun _ hno => absurd hno hwindow

theorem handleSendFragment_spec (hf : 0 < f) (h : Delivered f packets r d q)
    (hplace : Place f packets n j k p) (hlt : f < p.length)
    (hlow : numbers f packets d ≤ start f packets j + 36864)
    (hhigh : start f packets j < numbers f packets d + 65536)
    (hsome : handleSendFragment host full r (start f packets j % 65536) (commandCount f p) k
      p.length (k * f) ((p.drop (k * f)).take f) = some r') : Handled f packets r r' d q n j := by
  have hp := hplace.packet
  unfold handleSendFragment at hsome
  dsimp only at hsome
  by_cases htakes : takesData r
  case neg =>
    rw [if_pos htakes] at hsome
    cases hsome
  rw [if_neg (not_not.mpr htakes), h.current] at hsome
  split at hsome
  · cases hsome
  by_cases hout : outsideWindows (start f packets j % 65536) (numbers f packets d % 65536)
  · rw [if_pos hout] at hsome
    obtain rfl : r = r' := Option.some.inj hsome
    refine Handled.same h fun _ hwindow => ⟨j, k, p, hplace, Or.inl ?_⟩
    have hnot := (outsideWindows_iff hlow hhigh).mp hout
    by_contra hge
    have := numbers_mono f packets (Nat.not_lt.mp hge)
    rw [start_eq] at *
    omega
  rw [if_neg hout] at hsome
  split at hsome
  · cases hsome
  have hdj : d ≤ j := le_of_inside hf hp hlt hlow hout
  have hwindow : start f packets j / 4096 < numbers f packets d / 4096 + 7 := by
    by_contra hno
    exact hout ((outsideWindows_iff hlow hhigh).mpr fun hin => hno hin.2)
  obtain ⟨q₁, q₂, h₁, h₂, hafter, hcase⟩ := found_spec hf h.items hp hdj hwindow
  rw [h.queue] at hsome
  rcases hcase with ⟨rfl, hbefore, hnone⟩ | ⟨e, rfl, hfound⟩
  · rw [hnone] at hsome
    dsimp only at hsome
    have hheld : Held f (start f packets j) p
        { reliableSequenceNumber := start f packets j % 65536, sendFragment := true
          fragmentCount := commandCount f p, fragmentsRemaining := commandCount f p
          fragments := List.replicate (commandCount f p) false
          data := List.replicate p.length host.unset } := by
      refine ⟨rfl, fun hle => absurd hlt (Nat.not_lt.mpr hle), fun _ => ⟨rfl, rfl⟩,
        fun _ => ⟨List.length_replicate, ?_⟩, fun _ => ⟨List.length_replicate, fun i _ hset => ?_⟩⟩
      · rw [List.count_replicate_self]
      · rw [List.getElem?_replicate] at hset
        split at hset <;> cases hset
    rcases queueIncomingCommand_spec full hf h hp hdj hwindow hheld with
      ⟨hdiscard, -⟩ | herror | ⟨q₃, q₄, taken, e, d', q', r₁, hsplit, heq, hremaining, htaken, hdd',
        hr₁, hstate, hcommand⟩
    · rw [hdiscard, discardCommand, if_pos (commandCount_pos hf)] at hsome
      cases hsome
    · rw [herror] at hsome
      cases hsome
    · rw [hcommand] at hsome
      obtain rfl := Option.some.inj hsome
      -- the new command is not taken at once, as all of its fragments are missing
      have hsuffix : ∃ q₅, q' = q₅ ++ (j, e) :: q₄ := by
        rcases List.append_eq_append_iff.mp heq with ⟨l, htk, hq'⟩ | ⟨l, hq₃, hq'⟩
        · rcases l with - | ⟨y, l⟩
          · exact ⟨[], hq'.symm⟩
          · obtain ⟨rfl, -⟩ := List.cons.inj hq'
            have hzero := (htaken (j, e) (by rw [htk]; simp)).2
            rw [hremaining] at hzero
            exact absurd hzero (commandCount_pos hf).ne'
        · exact ⟨l, hq'⟩
      obtain ⟨q₅, rfl⟩ := hsuffix
      obtain ⟨d₂, q₆, hr₂, hgrows₂, harrived, hstate₂⟩ := addFragment_spec hf hr₁ hplace hlt
      have hgrows : Grows d (q₃ ++ (j, e) :: q₄) d' (q₅ ++ (j, e) :: q₄) :=
        heq ▸ grows_dispatch hdd' fun x hx => (htaken x hx).1
      refine ⟨hstate₂.trans hstate, ⟨d₂, q₆, hr₂, Grows.trans ?_ hgrows₂, fun _ _ => harrived⟩,
        fun hno => absurd hwindow hno⟩
      refine ⟨hdd', fun x hx => hgrows.held x ?_⟩
      rw [hsplit] at hx
      rcases List.mem_append.mp hx with hx | hx <;> simp [hx]
  · rw [hfound] at hsome
    dsimp only at hsome
    split at hsome
    · cases hsome
    rw [hafter, List.length_map] at hsome
    obtain rfl := Option.some.inj hsome
    obtain ⟨d₂, q₆, hr₂, hgrows₂, harrived, hstate₂⟩ := addFragment_spec hf h hplace hlt
    exact ⟨hstate₂, ⟨d₂, q₆, hr₂, hgrows₂, fun _ _ => harrived⟩, fun hno => absurd hwindow hno⟩

/-- Whatever command of the sequence arrives, however late: the receiver goes on in the order of
the sequence, nothing that has arrived is lost, and what is acknowledged has arrived. -/
theorem receive_spec {c : Command} {r₁ : Receiver} {acknowledged : Bool} (hf : 0 < f)
    (h : Delivered f packets r d q) (hplace : Place f packets n j k p)
    (hc : c = commandOf f (start f packets j) p k)
    (hlow : numbers f packets d ≤ start f packets j + 36864)
    (hhigh : n / 4096 ≤ numbers f packets d / 4096 + 7)
    (hreceive : receive host full r c = (r₁, acknowledged)) :
    r₁.state = r.state ∧ ∃ d' q', Delivered f packets r₁ d' q' ∧ Grows d q d' q' ∧
      (acknowledged = true → n / 4096 < numbers f packets d' / 4096 + 7 ∧
        (r.state = .connected → Arrived f packets d' q' n)) := by
  have hnumber := hplace.number
  have hstart : start f packets j < numbers f packets d + 65536 := by omega
  -- what the handler does to the receiver
  have hhandled : ∀ r', handleCommand host full r c = some r' →
      Handled f packets r r' d q n j := by
    intro r' hr'
    rw [hc, handleCommand, commandOf] at hr'
    rcases Nat.lt_or_ge f p.length with hlt | hle
    · rw [if_neg (Nat.not_le.mpr hlt)] at hr'
      exact handleSendFragment_spec hf h hplace hlt hlow hstart hr'
    · rw [if_pos hle] at hr'
      have hk : k = 0 := by
        have := hplace.lt
        rw [commandCount_of_le hle] at this
        omega
      subst hk
      exact handleSendReliable_spec hf h hplace hle hlow hstart hr'
  unfold receive at hreceive
  split at hreceive
  · obtain ⟨rfl, rfl⟩ := Prod.mk.inj hreceive
    exact ⟨rfl, d, q, h, Grows.refl, by simp⟩
  · rename_i r' hr'
    obtain ⟨rfl, rfl⟩ := Prod.mk.inj hreceive
    obtain ⟨hstate, ⟨d', q', hdelivered, hgrows, harrived⟩, houtside⟩ := hhandled r' hr'
    refine ⟨hstate, d', q', hdelivered, hgrows, fun hack => ?_⟩
    have hmono := numbers_mono f packets hgrows.le
    have hcnumber : c.reliableSequenceNumber = n % 65536 := by
      rw [hc, hnumber]
      rfl
    rw [hcnumber] at hack
    have hwindow := queueAcknowledgement_spec hdelivered.current (by omega) hack
    refine ⟨by omega, fun hconnected => harrived hconnected ?_⟩
    by_contra hno
    -- then the receiver is as it was, and would not have acknowledged the command
    have hsame : numbers f packets d' % 65536 = numbers f packets d % 65536 := by
      rw [← hdelivered.current, houtside hno, h.current]
    have hle := hdelivered.le
    have hback := queueAcknowledgement_spec (houtside hno ▸ h.current) hhigh hack
    omega

end Enet

end Zuckerserv
