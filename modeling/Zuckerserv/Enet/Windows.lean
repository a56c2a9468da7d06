import Zuckerserv.Enet.Outgoing
import Mathlib.Data.List.Perm.Subperm
import Mathlib.Data.Nat.Bitwise

/-!
# The windows of the sending end

The commands in flight lie within nine windows, so that their 16 bit numbers differ; and a window
is entered only after a command of the window before it has been acknowledged.

* `Windows` — the invariant of one channel, in terms of the numbers in flight.
* `Windows.next`, `Windows.send`, `Windows.acknowledge` — what keeps it.
-/

namespace Zuckerserv

namespace Enet

/-- `S` numbers have been given out and the first `F` have been sent; of these `flight` are in
flight and those in `A` have been acknowledged. -/
structure Windows (S F : Nat) (A : Nat → Prop) (c : OutgoingChannel) (flight fresh : List Nat) :
    Prop where
  number : c.outgoingReliableSequenceNumber = S % 65536
  le : F ≤ S
  fresh : fresh = List.range' (F + 1) (S - F)
  nodup : flight.Nodup
  bounds : ∀ n ∈ flight, 0 < n ∧ n ≤ F ∧ F / 4096 ≤ n / 4096 + 8
  counts : ∀ w < 16, c.reliableWindows w = flight.countP fun n => n % 65536 / 4096 = w
  used : ∀ w < 16, c.usedReliableWindows.testBit w = decide (0 < c.reliableWindows w)
  acked : ∀ n, 0 < n → n ≤ F → n ∈ flight ∨ A n
  entered : F / 4096 ≤ 1 ∨ ∃ n, A n ∧ F / 4096 ≤ n / 4096 + 1

variable {S F n m : Nat} {A : Nat → Prop} {c : OutgoingChannel} {flight flight' fresh : List Nat}

theorem Windows.perm (h : Windows S F A c flight fresh) (hperm : flight.Perm flight') :
    Windows S F A c flight' fresh where
  number := h.number
  le := h.le
  fresh := h.fresh
  nodup := hperm.nodup_iff.mp h.nodup
  bounds n hn := h.bounds n (hperm.mem_iff.mpr hn)
  counts w hw := (h.counts w hw).trans (hperm.countP_eq _)
  used := h.used
  acked n h0 hn := (h.acked n h0 hn).imp_left hperm.mem_iff.mp
  entered := h.entered

/-- Before anything is sent. -/
theorem windows_init : Windows 0 0 (fun _ => False)
    { outgoingReliableSequenceNumber := 0, reliableWindows := fun _ => 0, usedReliableWindows := 0 }
    [] [] where
  number := rfl
  le := Nat.le_refl 0
  fresh := rfl
  nodup := List.nodup_nil
  bounds := by simp
  counts := by simp
  used := by simp
  acked n h0 hn := by omega
  entered := Or.inl (by decide)

/-- A command in flight has another 16 bit number than one that has been sent and is not a whole
cycle behind it. -/
theorem Windows.eq_of_mod_eq (h : Windows S F A c flight fresh) (hm : m ∈ flight) (hn : n ≤ F)
    (hrecent : m < n + 65536) (heq : m % 65536 = n % 65536) : m = n := by
  obtain ⟨-, hmF, hwindow⟩ := h.bounds m hm
  omega

/-- A list of different numbers of an interval is not longer than the interval. -/
theorem length_le_of_nodup {l : List Nat} {a b : Nat} (hl : l.Nodup)
    (hmem : ∀ n ∈ l, a ≤ n ∧ n < a + b) : l.length ≤ b := by
  have hsub : l ⊆ List.range' a b := fun n hn => List.mem_range'_1.mpr (hmem n hn)
  have hlength := (hl.subperm hsub).length_le
  rwa [List.length_range'] at hlength

/-- Nine windows hold fewer than 65536 numbers. -/
theorem Windows.length_lt (h : Windows S F A c flight fresh) : flight.length < 65535 := by
  have hlength := length_le_of_nodup (a := (F / 4096 - 8) * 4096) (b := 40000) h.nodup
    fun n hn => by
      obtain ⟨-, hnF, hwindow⟩ := h.bounds n hn
      omega
  omega

/-! ## A number is given out -/

theorem Windows.next (h : Windows S F A c flight fresh) :
    Windows (S + 1) F A c.next flight (fresh ++ [S + 1]) where
  number := by
    simp only [OutgoingChannel.next, h.number, U16]
    omega
  le := h.le.trans (Nat.le_succ S)
  fresh := by
    have hle := h.le
    rw [h.fresh, Nat.succ_sub hle, List.range'_concat]
    congr 2
    omega
  nodup := h.nodup
  bounds := h.bounds
  counts := h.counts
  used := h.used
  acked := h.acked
  entered := h.entered

/-! ## A command is sent for the first time -/

/-- The mask of the eight windows from `w` on has the seventh one behind it. -/
theorem testBit_freeWindows {w : Nat} (hw : w < 16) :
    (freeWindows w).testBit ((w + 7) % 16) = true := by
  have key : ∀ i : Fin 16, (freeWindows i).testBit ((i + 7) % 16) = true := by decide
  exact key ⟨w, hw⟩

/-- A window whose bit is not set has nothing in flight. -/
theorem Windows.not_mem_of_unused (h : Windows S F A c flight fresh) {w : Nat} (hw : w < 16)
    (hunused : c.usedReliableWindows.testBit w = false) (hm : m ∈ flight) :
    m % 65536 / 4096 ≠ w := by
  intro heq
  rw [h.used w hw, decide_eq_false_iff_not, h.counts w hw, List.countP_pos_iff] at hunused
  exact hunused ⟨m, hm, by simpa using heq⟩

/-- The test at the start of a window. -/
theorem not_wraps {β : Type} {o : OutgoingCommand β}
    (hnumber : o.reliableSequenceNumber = n % 65536)
    (hattempts : o.sendAttempts < 1) (hstart : n % 4096 = 0) (hwraps : wraps c o = false) :
    c.reliableWindows ((n % 65536 / 4096 + 15) % 16) < 4096 ∧
      c.usedReliableWindows &&& freeWindows (n % 65536 / 4096) = 0 := by
  have hstart' : n % 65536 % 4096 = 0 := by omega
  simpa [wraps, hnumber, hattempts, hstart', RELIABLE_WINDOW_SIZE, RELIABLE_WINDOWS] using hwraps

theorem Windows.send {β : Type} {o : OutgoingCommand β} (h : Windows S F A c flight (n :: fresh))
    (hnumber : o.reliableSequenceNumber = n % 65536) (hattempts : o.sendAttempts < 1)
    (hwraps : wraps c o = false) :
    n = F + 1 ∧ Windows S (F + 1) A (c.use (o.reliableSequenceNumber / 4096))
      (n :: flight) fresh := by
  have hle := h.le
  have hlt : F < S := by
    by_contra hge
    have hfresh := h.fresh
    rw [Nat.sub_eq_zero_of_le (Nat.not_lt.mp hge)] at hfresh
    cases hfresh
  obtain ⟨d, hd⟩ : ∃ d, S - F = d + 1 := ⟨S - F - 1, by omega⟩
  have hfresh := h.fresh
  rw [hd, List.range'_succ] at hfresh
  obtain ⟨rfl, hrest⟩ := List.cons.inj hfresh
  refine ⟨rfl, ?_⟩
  -- what the test says when a window is entered
  have hstart : (F + 1) % 4096 = 0 →
      c.reliableWindows (((F + 1) % 65536 / 4096 + 15) % 16) < 4096 ∧
        c.usedReliableWindows &&& freeWindows ((F + 1) % 65536 / 4096) = 0 :=
    fun h0 => not_wraps hnumber hattempts h0 hwraps
  rw [hnumber]
  have hcount : ∀ w < 16, (c.reliableWindows w + 1) % U16 = c.reliableWindows w + 1 := by
    intro w hw
    have hlength := h.length_lt
    have hle := List.countP_le_length (l := flight) (p := fun n => n % 65536 / 4096 = w)
    rw [h.counts w hw, U16]
    omega
  refine ⟨h.number, hlt, ?_, ?_, ?_, ?_, ?_, ?_, ?_⟩
  · rw [hrest]
    congr 1
    omega
  · refine List.nodup_cons.mpr ⟨fun hmem => ?_, h.nodup⟩
    have := (h.bounds _ hmem).2.1
    omega
  · intro m hm
    rcases List.mem_cons.mp hm with rfl | hm
    · omega
    obtain ⟨h0, hmF, hwindow⟩ := h.bounds m hm
    refine ⟨h0, by omega, ?_⟩
    by_contra hfar
    -- then a window is entered that looks like the one of `m`
    obtain ⟨-, hmask⟩ := hstart (by omega)
    have hw : (F + 1) % 65536 / 4096 < 16 := by omega
    have hbit := congrArg (Nat.testBit · (((F + 1) % 65536 / 4096 + 7) % 16)) hmask
    rw [Nat.testBit_and, testBit_freeWindows hw, Bool.and_true, Nat.zero_testBit] at hbit
    exact h.not_mem_of_unused (Nat.mod_lt _ (by decide)) hbit hm (by omega)
  · intro w hw
    simp only [OutgoingChannel.use, List.countP_cons]
    by_cases hwn : (F + 1) % 65536 / 4096 = w
    · subst hwn
      rw [Function.update_self, hcount _ hw, h.counts _ hw]
      simp
    · rw [Function.update_of_ne (Ne.symm hwn), h.counts w hw]
      simp [hwn]
  · intro w hw
    simp only [OutgoingChannel.use, Nat.testBit_or, h.used w hw, Nat.one_shiftLeft,
      Nat.testBit_two_pow]
    by_cases hwn : (F + 1) % 65536 / 4096 = w
    · subst hwn
      rw [Function.update_self, hcount _ hw]
      simp
    · rw [Function.update_of_ne (Ne.symm hwn)]
      simp [hwn]
  · intro m h0 hm
    rcases Nat.eq_or_lt_of_le hm with rfl | hm
    · exact Or.inl List.mem_cons_self
    · exact (h.acked m h0 (by omega)).imp_left (List.mem_cons_of_mem _)
  · by_cases hsame : (F + 1) / 4096 = F / 4096
    · rw [hsame]
      exact h.entered
    · rw [or_iff_not_imp_left]
      intro hW
      by_contra hno
      obtain ⟨hprevious, -⟩ := hstart (by omega)
      -- otherwise all the commands of the window before it are in flight
      have hsub : List.range' (F / 4096 * 4096) 4096 ⊆
          flight.filter (fun m => m % 65536 / 4096 = ((F + 1) % 65536 / 4096 + 15) % 16) := by
        intro m hm
        rw [List.mem_range'_1] at hm
        rw [List.mem_filter]
        refine ⟨?_, decide_eq_true (by omega)⟩
        rcases h.acked m (by omega) (by omega) with hin | hacked
        · exact hin
        · exact absurd ⟨m, hacked, by omega⟩ hno
      have hlength := ((List.nodup_range' 1 Nat.one_pos).subperm hsub).length_le
      rw [List.length_range', ← List.countP_eq_length_filter,
        ← h.counts _ (Nat.mod_lt _ (by decide))] at hlength
      omega

/-! ## A command is acknowledged -/

theorem Windows.acknowledge (h : Windows S F A c (n :: flight) fresh) :
    Windows S F (fun m => m = n ∨ A m) (c.release (n % 65536 / 4096)) flight fresh := by
  have hw : n % 65536 / 4096 < 16 := by omega
  have hcounts := h.counts
  simp only [List.countP_cons] at hcounts
  have hpos : 0 < c.reliableWindows (n % 65536 / 4096) := by
    rw [hcounts _ hw]
    simp
  have hone : ∀ w < 16, (c.release (n % 65536 / 4096)).reliableWindows w =
      flight.countP fun n => n % 65536 / 4096 = w := by
    intro w hlt
    rw [OutgoingChannel.release, if_pos hpos]
    dsimp only
    by_cases hwn : n % 65536 / 4096 = w
    · subst hwn
      rw [Function.update_self, hcounts _ hw]
      simp
    · rw [Function.update_of_ne (Ne.symm hwn), hcounts w hlt]
      simp [hwn]
  have hnodup := List.nodup_cons.mp h.nodup
  refine ⟨?_, h.le, h.fresh, hnodup.2, fun m hm => h.bounds m (List.mem_cons_of_mem _ hm), hone,
    ?_, ?_, ?_⟩
  · rw [OutgoingChannel.release, if_pos hpos]
    exact h.number
  · intro w hlt
    rw [OutgoingChannel.release, if_pos hpos]
    dsimp only
    by_cases hwn : n % 65536 / 4096 = w
    · subst hwn
      simp only [Function.update_self]
      split_ifs with hzero
      · simp [hzero, Nat.testBit_and, Nat.testBit_xor, Nat.one_shiftLeft, U16,
          show 65536 - 1 = 2 ^ 16 - 1 from rfl, Nat.testBit_two_pow_sub_one, hw]
      · rw [h.used _ hw]
        simp only [decide_eq_decide]
        omega
    · simp only [Function.update_of_ne (Ne.symm hwn)]
      split_ifs
      · simp [Nat.testBit_and, Nat.testBit_xor, Nat.one_shiftLeft, U16,
          show 65536 - 1 = 2 ^ 16 - 1 from rfl, Nat.testBit_two_pow_sub_one, hwn, hlt, h.used w hlt]
      · exact h.used w hlt
  · intro m h0 hm
    rcases h.acked m h0 hm with hin | hacked
    · rcases List.mem_cons.mp hin with rfl | hin
      · exact Or.inr (Or.inl rfl)
      · exact Or.inl hin
    · exact Or.inr (Or.inr hacked)
  · exact h.entered.imp_right fun ⟨m, hm, hle⟩ => ⟨m, Or.inr hm, hle⟩

end Enet

end Zuckerserv
