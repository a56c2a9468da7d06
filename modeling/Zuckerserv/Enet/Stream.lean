import Zuckerserv.Enet.Numbers

/-!
# The commands of a sequence of packets

What a channel carries is a sequence of packets. Each takes one number, or one for each of its
fragments; the commands of the sequence are numbered from 1 on.

* `commandCount`, `start` — the numbers of a packet.
* `commandOf` — a command of a packet.
* `IsCommand` — the command with a number.
-/

namespace Zuckerserv

namespace Enet

/-- A packet. -/
abbrev Packet : Type := List UInt8

/-- The number of commands of a packet, with `f` bytes to a fragment. -/
def commandCount (f : Nat) (p : Packet) : Nat :=
  if p.length ≤ f then 1 else (p.length + f - 1) / f

/-- The last number of the first `j` packets. -/
def numbers (f : Nat) (packets : List Packet) (j : Nat) : Nat :=
  ((packets.take j).map (commandCount f)).sum

/-- The number of the first command of packet `j`. -/
def start (f : Nat) (packets : List Packet) (j : Nat) : Nat := numbers f packets j + 1

/-- Command `k` of the packet `p` whose first number is `s`. -/
def commandOf (f s : Nat) (p : Packet) (k : Nat) : Command :=
  { reliableSequenceNumber := (s + k) % 65536
    body := if p.length ≤ f then .sendReliable p else
      .sendFragment (s % 65536) (commandCount f p) k p.length (k * f) ((p.drop (k * f)).take f) }

/-- The command with the number `n` is command `k` of packet `j`. -/
structure Place (f : Nat) (packets : List Packet) (n j k : Nat) (p : Packet) : Prop where
  packet : packets[j]? = some p
  lt : k < commandCount f p
  number : n = start f packets j + k

/-- `c` is the command with the number `n`. -/
def IsCommand (f : Nat) (packets : List Packet) (n : Nat) (c : Command) : Prop :=
  ∃ j k p, Place f packets n j k p ∧ c = commandOf f (start f packets j) p k

variable {f n m j j' k k' : Nat} {packets : List Packet} {p p' : Packet}

theorem start_eq : start f packets j = numbers f packets j + 1 := rfl

theorem numbers_succ (h : packets[j]? = some p) :
    numbers f packets (j + 1) = numbers f packets j + commandCount f p := by
  unfold numbers
  rw [List.take_add_one, h, Option.toList_some, List.map_append, List.sum_append]
  rfl

theorem numbers_mono (f : Nat) (packets : List Packet) (h : j ≤ j') :
    numbers f packets j ≤ numbers f packets j' := by
  unfold numbers
  obtain ⟨d, rfl⟩ := Nat.exists_eq_add_of_le h
  rw [List.take_add, List.map_append, List.sum_append]
  exact Nat.le_add_right ..

/-- The numbers of a later packet come behind those of an earlier one. -/
theorem numbers_lt (h : packets[j]? = some p) (hj : j < j') :
    numbers f packets j + commandCount f p ≤ numbers f packets j' :=
  numbers_succ h ▸ numbers_mono f packets hj

theorem numbers_append {more : List Packet} (h : j ≤ packets.length) :
    numbers f (packets ++ more) j = numbers f packets j := by
  rw [numbers, numbers, List.take_append_of_le_length h]

theorem commandCount_pos (hf : 0 < f) : 0 < commandCount f p := by
  unfold commandCount
  split
  · exact Nat.one_pos
  · exact Nat.div_pos (by omega) hf

theorem commandCount_of_le (h : p.length ≤ f) : commandCount f p = 1 := if_pos h

theorem commandCount_of_lt (h : f < p.length) : commandCount f p = (p.length + f - 1) / f :=
  if_neg (Nat.not_le.mpr h)

/-- The bytes of a packet are those of its fragments. -/
theorem div_lt_commandCount (hf : 0 < f) (h : f < p.length) {i : Nat} (hi : i < p.length) :
    i / f < commandCount f p := by
  rw [commandCount_of_lt h, Nat.div_lt_iff_lt_mul hf]
  have hlast := Nat.lt_mul_div_succ (p.length + f - 1) hf
  rw [Nat.mul_succ, Nat.mul_comm] at hlast
  omega

/-- Every fragment has bytes. -/
theorem mul_lt_length (hf : 0 < f) (h : f < p.length) (hk : k < commandCount f p) :
    k * f < p.length := by
  rw [commandCount_of_lt h] at hk
  have hk' := (Nat.le_div_iff_mul_le hf).mp hk
  rw [Nat.succ_mul] at hk'
  omega

theorem Place.append {more : List Packet} (h : Place f packets n j k p) :
    Place f (packets ++ more) n j k p := by
  obtain ⟨hj, -⟩ := List.getElem?_eq_some_iff.mp h.packet
  refine ⟨?_, h.lt, ?_⟩
  · rw [List.getElem?_append_left hj]
    exact h.packet
  · rw [h.number, start_eq, start_eq, numbers_append hj.le]

theorem IsCommand.append {more : List Packet} {c : Command} (h : IsCommand f packets n c) :
    IsCommand f (packets ++ more) n c := by
  obtain ⟨j, k, p, hplace, rfl⟩ := h
  refine ⟨j, k, p, hplace.append, ?_⟩
  obtain ⟨hj, -⟩ := List.getElem?_eq_some_iff.mp hplace.packet
  rw [start_eq, start_eq, numbers_append hj.le]

/-- A number has one place. -/
theorem Place.unique (h : Place f packets n j k p) (h' : Place f packets n j' k' p') :
    j = j' ∧ k = k' ∧ p = p' := by
  have hn := h.number
  have hn' := h'.number
  have hk := h.lt
  have hk' := h'.lt
  rw [start_eq] at hn hn'
  have hj : j = j' := by
    rcases Nat.lt_trichotomy j j' with hlt | heq | hgt
    · have := numbers_lt (f := f) h.packet hlt
      omega
    · exact heq
    · have := numbers_lt (f := f) h'.packet hgt
      omega
  subst hj
  refine ⟨rfl, by omega, ?_⟩
  have := h.packet.symm.trans h'.packet
  exact Option.some.inj this

end Enet

end Zuckerserv
