import Zuckerserv.Enet.Stream

/-!
# The queue of a reliable channel

The queue holds packets whose turn has not come, in the order of the sender's sequence, each
with what has arrived of it.

* `Held` — what the queue holds of one packet.
* `Queue`, `Delivered` — the invariant of the receiving end.
* `Grows` — how a step may change what has arrived.
* `delivered_dispatch` — taking packets from the front of the queue keeps the invariant.
-/

namespace Zuckerserv

namespace Enet

/-- `e` is what has arrived of the packet `p` with the first number `s`. -/
structure Held (f s : Nat) (p : Packet) (e : Incoming) : Prop where
  number : e.reliableSequenceNumber = s % 65536
  whole : p.length ≤ f → e.sendFragment = false ∧ e.fragmentCount = 0 ∧
    e.fragmentsRemaining = 0 ∧ e.data = p
  fragment : f < p.length → e.sendFragment = true ∧ e.fragmentCount = commandCount f p
  bits : f < p.length → e.fragments.length = commandCount f p ∧
    e.fragmentsRemaining = e.fragments.count false
  bytes : f < p.length → e.data.length = p.length ∧
    ∀ i < p.length, e.fragments[i / f]? = some true → e.data[i]? = p[i]?

/-- The queue `q` of a channel on which `d` packets have been delivered: every command with the
place of its packet. -/
structure Queue (f : Nat) (packets : List Packet) (d : Nat) (q : List (Nat × Incoming)) :
    Prop where
  sorted : (q.map Prod.fst).Pairwise (· < ·)
  held : ∀ x ∈ q, ∃ p, packets[x.1]? = some p ∧ d ≤ x.1 ∧
    start f packets x.1 / 4096 < numbers f packets d / 4096 + 7 ∧
    Held f (start f packets x.1) p x.2

/-- The receiver is about to look for packets that are ready. -/
structure Queuing (f : Nat) (packets : List Packet) (r : Receiver) (d : Nat)
    (q : List (Nat × Incoming)) : Prop where
  le : d ≤ packets.length
  current : r.incomingReliableSequenceNumber = numbers f packets d % 65536
  queue : r.incomingReliableCommands = q.map Prod.snd
  items : Queue f packets d q
  dispatched : r.dispatchedCommands.map (·.data) = packets.take d

/-- The receiver has delivered the first `d` packets, and holds `q` of those that follow. -/
structure Delivered (f : Nat) (packets : List Packet) (r : Receiver) (d : Nat)
    (q : List (Nat × Incoming)) : Prop extends Queuing f packets r d q where
  /-- The packet whose turn it is has not arrived as a whole. -/
  waiting : ∀ x ∈ q.head?, x.1 = d → x.2.fragmentsRemaining ≠ 0

/-- Everything that had arrived still has. -/
structure Grows (d : Nat) (q : List (Nat × Incoming)) (d' : Nat) (q' : List (Nat × Incoming)) :
    Prop where
  le : d ≤ d'
  held : ∀ x ∈ q, x.1 < d' ∨ ∃ y ∈ q', y.1 = x.1 ∧
    ∀ k : Nat, x.2.fragments[k]? = some true → y.2.fragments[k]? = some true

/-- The command with the number `n` has arrived. -/
def Arrived (f : Nat) (packets : List Packet) (d : Nat) (q : List (Nat × Incoming)) (n : Nat) :
    Prop :=
  ∃ j k p, Place f packets n j k p ∧
    (j < d ∨ ∃ x ∈ q, x.1 = j ∧ (p.length ≤ f ∨ x.2.fragments[k]? = some true))

variable {f n d d' d'' j k : Nat} {packets : List Packet} {p : Packet} {r : Receiver}
  {q q' q'' : List (Nat × Incoming)}

theorem Grows.refl : Grows d q d q :=
  ⟨Nat.le_refl d, fun x hx => Or.inr ⟨x, hx, rfl, fun _ h => h⟩⟩

theorem Grows.trans (h : Grows d q d' q') (h' : Grows d' q' d'' q'') : Grows d q d'' q'' := by
  refine ⟨h.le.trans h'.le, fun x hx => ?_⟩
  rcases h.held x hx with hlt | ⟨y, hy, hyx, hbits⟩
  · exact Or.inl (lt_of_lt_of_le hlt h'.le)
  rcases h'.held y hy with hlt | ⟨z, hz, hzy, hbits'⟩
  · exact Or.inl (hyx ▸ hlt)
  · exact Or.inr ⟨z, hz, hzy.trans hyx, fun k hk => hbits' k (hbits k hk)⟩

theorem Arrived.mono (h : Arrived f packets d q n) (hgrows : Grows d q d' q') :
    Arrived f packets d' q' n := by
  obtain ⟨j, k, p, hplace, hlt | ⟨x, hx, rfl, hbit⟩⟩ := h
  · exact ⟨j, k, p, hplace, Or.inl (lt_of_lt_of_le hlt hgrows.le)⟩
  refine ⟨x.1, k, p, hplace, ?_⟩
  rcases hgrows.held x hx with hlt | ⟨y, hy, hyx, hbits⟩
  · exact Or.inl hlt
  · exact Or.inr ⟨y, hy, hyx, hbit.imp_right (hbits k)⟩

theorem Arrived.append {more : List Packet} (h : Arrived f packets d q n) :
    Arrived f (packets ++ more) d q n := by
  obtain ⟨j, k, p, hplace, h⟩ := h
  exact ⟨j, k, p, hplace.append, h⟩

/-! ## More packets are sent -/

theorem Queue.append {more : List Packet} (h : Queue f packets d q) (hd : d ≤ packets.length) :
    Queue f (packets ++ more) d q := by
  refine ⟨h.sorted, fun x hx => ?_⟩
  obtain ⟨p, hp, hle, hwindow, hheld⟩ := h.held x hx
  obtain ⟨hlt, -⟩ := List.getElem?_eq_some_iff.mp hp
  refine ⟨p, ?_, hle, ?_, ?_⟩
  · rw [List.getElem?_append_left hlt]
    exact hp
  · rw [start_eq, numbers_append hlt.le, numbers_append hd]
    exact hwindow
  · rw [start_eq, numbers_append hlt.le]
    exact hheld

theorem Delivered.append {more : List Packet} (h : Delivered f packets r d q) :
    Delivered f (packets ++ more) r d q := by
  refine ⟨⟨?_, ?_, h.queue, h.items.append h.le, ?_⟩, h.waiting⟩
  · rw [List.length_append]
    exact h.le.trans (Nat.le_add_right ..)
  · rw [numbers_append h.le]
    exact h.current
  · rw [List.take_append_of_le_length h.le]
    exact h.dispatched

/-! ## Where a packet belongs in the queue -/

theorem start_lt_iff (hf : 0 < f) {p' : Packet} {j' : Nat} (h : packets[j]? = some p)
    (h' : packets[j']? = some p') : start f packets j < start f packets j' ↔ j < j' := by
  have hpos := commandCount_pos (p := p) hf
  have hpos' := commandCount_pos (p := p') hf
  rw [start_eq, start_eq]
  constructor
  · intro hlt
    by_contra hge
    rcases Nat.eq_or_lt_of_le (Nat.not_lt.mp hge) with rfl | hgt
    · omega
    · have := numbers_lt (f := f) h' hgt
      omega
  · intro hlt
    have := numbers_lt (f := f) h hlt
    omega

/-- The loop over the queue stops behind the packets that do not come after packet `j`. -/
theorem split_spec (hf : 0 < f) (hq : Queue f packets d q) (hp : packets[j]? = some p)
    (hd : d ≤ j) (hwindow : start f packets j / 4096 < numbers f packets d / 4096 + 7) :
    ∃ q₁ q₂, q = q₁ ++ q₂ ∧ (∀ x ∈ q₁, x.1 ≤ j) ∧ (∀ x ∈ q₂, j < x.1) ∧
      before (start f packets j % 65536) (numbers f packets d % 65536) (q.map Prod.snd) =
        q₁.map Prod.snd ∧
      after (start f packets j % 65536) (numbers f packets d % 65536) (q.map Prod.snd) =
        q₂.map Prod.snd := by
  have hj := numbers_mono f packets hd
  -- by induction on the queue from its end, as the loop runs
  induction q using List.reverseRecOn with
  | nil => exact ⟨[], [], rfl, by simp, by simp, rfl, rfl⟩
  | append_singleton q x ih =>
    obtain ⟨px, hpx, hdx, hwx, hheld⟩ := hq.held x (by simp)
    have hx := numbers_mono f packets hdx
    have hpass := passes_iff (c := x.2) hheld.number (n := start f packets j)
      (r := numbers f packets d) (by rw [start_eq]; omega) (by omega) (by rw [start_eq]; omega)
      (by omega)
    rw [start_lt_iff hf hp hpx] at hpass
    have hsorted := hq.sorted
    rw [List.map_append, List.pairwise_append] at hsorted
    rw [List.map_append, before, after, List.map_singleton]
    by_cases hlt : j < x.1
    · obtain ⟨q₁, q₂, rfl, h₁, h₂, hbefore, hafter⟩ := ih
        ⟨hsorted.1, fun y hy => hq.held y (by simp [hy])⟩
      refine ⟨q₁, q₂ ++ [x], List.append_assoc .., h₁, ?_, ?_, ?_⟩
      · intro y hy
        rcases List.mem_append.mp hy with hy | hy
        · exact h₂ y hy
        · exact List.mem_singleton.mp hy ▸ hlt
      · rw [List.rdropWhile_concat_pos _ _ _ (hpass.mpr hlt)]
        exact hbefore
      · have hmap : (q₂ ++ [x]).map Prod.snd = q₂.map Prod.snd ++ [x.2] := by simp
        rw [List.rtakeWhile_concat_pos _ _ _ (hpass.mpr hlt), hmap]
        exact congrArg (· ++ [x.2]) hafter
    · refine ⟨q ++ [x], [], (List.append_nil _).symm, ?_, by simp, ?_, ?_⟩
      · intro y hy
        rcases List.mem_append.mp hy with hy | hy
        · have := hsorted.2.2 y.1 (List.mem_map_of_mem hy) x.1 (by simp)
          omega
        · rw [List.mem_singleton.mp hy]
          omega
      · rw [List.rdropWhile_concat_neg _ _ _ (fun h => hlt (hpass.mp h)), List.map_append]
        rfl
      · rw [List.rtakeWhile_concat_neg _ _ _ (fun h => hlt (hpass.mp h))]
        rfl

/-- The loop finds packet `j` if it is in the queue, else the place where it belongs. -/
theorem found_spec (hf : 0 < f) (hq : Queue f packets d q) (hp : packets[j]? = some p)
    (hd : d ≤ j) (hwindow : start f packets j / 4096 < numbers f packets d / 4096 + 7) :
    ∃ q₁ q₂, (∀ x ∈ q₁, x.1 < j) ∧ (∀ x ∈ q₂, j < x.1) ∧
      after (start f packets j % 65536) (numbers f packets d % 65536) (q.map Prod.snd) =
        q₂.map Prod.snd ∧
      ((q = q₁ ++ q₂ ∧
        before (start f packets j % 65536) (numbers f packets d % 65536) (q.map Prod.snd) =
          q₁.map Prod.snd ∧
        found (start f packets j % 65536) (numbers f packets d % 65536) (q.map Prod.snd) = none) ∨
      ∃ e, q = q₁ ++ (j, e) :: q₂ ∧
        found (start f packets j % 65536) (numbers f packets d % 65536) (q.map Prod.snd) =
          some e) := by
  obtain ⟨q₁, q₂, rfl, h₁, h₂, hbefore, hafter⟩ := split_spec hf hq hp hd hwindow
  have hj := numbers_mono f packets hd
  rcases List.eq_nil_or_concat' q₁ with rfl | ⟨q₀, x, rfl⟩
  · exact ⟨[], q₂, by simp, h₂, hafter, Or.inl ⟨rfl, hbefore, by rw [found, hbefore]; rfl⟩⟩
  obtain ⟨px, hpx, hdx, hwx, hheld⟩ := hq.held x (by simp)
  have hx := numbers_mono f packets hdx
  have hsorted := hq.sorted
  rw [List.map_append, List.map_append, List.append_assoc, List.pairwise_append] at hsorted
  have hlt₀ : ∀ y ∈ q₀, y.1 < x.1 := fun y hy =>
    hsorted.2.2 y.1 (List.mem_map_of_mem hy) x.1 (by simp)
  have hfound : found (start f packets j % 65536) (numbers f packets d % 65536)
      ((q₀ ++ [x] ++ q₂).map Prod.snd) =
      if x.2.reliableSequenceNumber == start f packets j % 65536 then some x.2 else none := by
    rw [found, hbefore]
    simp [Option.filter]
  rcases Nat.eq_or_lt_of_le (h₁ x (by simp)) with heq | hlt
  · refine ⟨q₀, q₂, fun y hy => heq ▸ hlt₀ y hy, h₂, hafter, Or.inr ⟨x.2, ?_, ?_⟩⟩
    · rw [← heq, List.append_assoc]
      rfl
    · rw [hfound, hheld.number, heq, if_pos (beq_self_eq_true _)]
  · refine ⟨q₀ ++ [x], q₂, ?_, h₂, hafter, Or.inl ⟨rfl, hbefore, ?_⟩⟩
    · intro y hy
      rcases List.mem_append.mp hy with hy | hy
      · exact (hlt₀ y hy).trans hlt
      · exact List.mem_singleton.mp hy ▸ hlt
    · rw [hfound, if_neg]
      rw [beq_iff_eq, hheld.number]
      intro heq
      have hne := (start_lt_iff hf hpx hp).mpr hlt
      rw [start_eq, start_eq] at *
      omega

/-! ## Packets that are ready -/

/-- A packet of which nothing is missing is there as it was sent. -/
theorem Held.complete {s : Nat} {e : Incoming} (hf : 0 < f) (h : Held f s p e)
    (hremaining : e.fragmentsRemaining = 0) : e.data = p := by
  rcases Nat.lt_or_ge f p.length with hlt | hle
  · have hcount := (h.bits hlt).2.symm.trans hremaining
    obtain ⟨hlength, hbytes⟩ := h.bytes hlt
    refine List.ext_getElem? fun i => ?_
    by_cases hi : i < p.length
    · have hlt' : i / f < e.fragments.length :=
        (h.bits hlt).1 ▸ div_lt_commandCount hf hlt hi
      have hbit : e.fragments[i / f] = true := by
        by_contra hfalse
        exact List.count_eq_zero.mp hcount
          ((Bool.not_eq_true _).mp hfalse ▸ List.getElem_mem hlt')
      exact hbytes i hi (List.getElem?_eq_some_iff.mpr ⟨hlt', hbit⟩)
    · rw [List.getElem?_eq_none (by omega), List.getElem?_eq_none (by omega)]
  · exact (h.whole hle).2.2.2

/-- What the loop takes from the queue are the next packets of the sequence. -/
theorem dispatchLoop_spec (hf : 0 < f) (hq : Queue f packets d q) (hd : d ≤ packets.length) :
    ∃ d' moved taken q', q = taken ++ q' ∧ d ≤ d' ∧ d' ≤ packets.length ∧
      dispatchLoop (numbers f packets d % 65536) (q.map Prod.snd) =
        (numbers f packets d' % 65536, moved, q'.map Prod.snd) ∧
      packets.take d' = packets.take d ++ moved.map (·.data) ∧
      (∀ x ∈ taken, x.1 < d' ∧ x.2.fragmentsRemaining = 0) ∧ Queue f packets d' q' ∧
      ∀ x ∈ q'.head?, x.1 = d' → x.2.fragmentsRemaining ≠ 0 := by
  induction q generalizing d with
  | nil => exact ⟨d, [], [], [], rfl, Nat.le_refl d, hd, rfl, by simp, by simp, hq, by simp⟩
  | cons x q ih =>
    obtain ⟨p, hp, hdx, hwindow, hheld⟩ := hq.held x List.mem_cons_self
    have hx := numbers_mono f packets hdx
    obtain ⟨hxlt, -⟩ := List.getElem?_eq_some_iff.mp hp
    rw [List.map_cons, dispatchLoop]
    by_cases hcond : 0 < x.2.fragmentsRemaining ∨
        x.2.reliableSequenceNumber ≠ (numbers f packets d % 65536 + 1) % U16
    · rw [if_pos hcond]
      refine ⟨d, [], [], x :: q, rfl, Nat.le_refl d, hd, rfl, by simp, by simp, hq, ?_⟩
      rintro y hy hyd
      obtain rfl : x = y := Option.some.inj hy
      rcases hcond with hpos | hne
      · exact hpos.ne'
      · refine absurd ?_ hne
        rw [hheld.number, start_eq, hyd, U16]
        omega
    · rw [if_neg hcond]
      rw [not_or, Nat.not_lt, not_not, Nat.le_zero] at hcond
      obtain ⟨hready, hnumber⟩ := hcond
      -- the number can only be the next one, and so the packet is
      have hnext : x.1 = d := by
        by_contra hne
        have hlt : d < x.1 := Nat.lt_of_le_of_ne hdx (Ne.symm hne)
        have hpd : packets[d]? = some packets[d] := List.getElem?_eq_getElem (by omega)
        have := numbers_lt (f := f) hpd hlt
        have := commandCount_pos (p := packets[d]) hf
        rw [hheld.number, start_eq, U16] at hnumber
        rw [start_eq] at hwindow
        omega
      subst hnext
      have hcurrent : (if 0 < x.2.fragmentCount then
          (x.2.reliableSequenceNumber + (x.2.fragmentCount - 1)) % U16
          else x.2.reliableSequenceNumber) = numbers f packets (x.1 + 1) % 65536 := by
        rw [numbers_succ hp, hheld.number, start_eq, U16]
        rcases Nat.lt_or_ge f p.length with hlt | hle
        · have hpos := commandCount_pos (p := p) hf
          rw [(hheld.fragment hlt).2, if_pos hpos]
          omega
        · rw [(hheld.whole hle).2.1, if_neg (Nat.lt_irrefl 0), commandCount_of_le hle]
      have hsorted := List.pairwise_cons.mp (List.map_cons ▸ hq.sorted)
      obtain ⟨d', moved, taken, q', rfl, hle, hlen, hloop, htake, htaken, hq', hwait⟩ := ih
        (d := x.1 + 1)
        ⟨hsorted.2, fun y hy => by
          obtain ⟨py, hpy, -, hwy, hheldy⟩ := hq.held y (List.mem_cons_of_mem x hy)
          refine ⟨py, hpy, hsorted.1 y.1 (List.mem_map_of_mem hy), ?_, hheldy⟩
          exact lt_of_lt_of_le hwy (Nat.add_le_add_right
            (Nat.div_le_div_right (numbers_mono f packets (Nat.le_succ _))) 7)⟩ hxlt
      refine ⟨d', x.2 :: moved, x :: taken, q', rfl, (Nat.le_succ _).trans hle, hlen, ?_, ?_, ?_,
        hq', hwait⟩
      · rw [hcurrent]
        dsimp only
        rw [hloop]
      · rw [htake, List.take_add_one, hp, List.map_cons, hheld.complete hf hready]
        simp
      · intro y hy
        rcases List.mem_cons.mp hy with rfl | hy
        · exact ⟨hle, hready⟩
        · exact htaken y hy

/-- Looking for packets that are ready. -/
theorem delivered_dispatch (hf : 0 < f) (h : Queuing f packets r d q) :
    ∃ d' taken q', q = taken ++ q' ∧ (∀ x ∈ taken, x.1 < d' ∧ x.2.fragmentsRemaining = 0) ∧
      d ≤ d' ∧ Delivered f packets (dispatchIncomingReliableCommands r) d' q' := by
  obtain ⟨d', moved, taken, q', rfl, hle, hlen, hloop, htake, htaken, hq', hwait⟩ :=
    dispatchLoop_spec hf h.items h.le
  refine ⟨d', taken, q', rfl, htaken, hle, ⟨⟨hlen, ?_, ?_, hq', ?_⟩, hwait⟩⟩ <;>
    simp only [dispatchIncomingReliableCommands, h.current, h.queue, hloop]
  rw [List.map_append, h.dispatched, htake]

/-- What is taken from the queue has been delivered. -/
theorem grows_dispatch {taken : List (Nat × Incoming)} (hd : d ≤ d')
    (htaken : ∀ x ∈ taken, x.1 < d') : Grows d (taken ++ q') d' q' := by
  refine ⟨hd, fun x hx => ?_⟩
  rcases List.mem_append.mp hx with hx | hx
  · exact Or.inl (htaken x hx)
  · exact Or.inr ⟨x, hx, rfl, fun _ h => h⟩

end Enet

end Zuckerserv
