import Zuckerserv.Shared.NetInt
import Zuckerserv.Shared.Text

/-!
# Strings in messages

A string is sent as the integers of its characters, with a zero behind them. The reader takes one
integer after the other into a buffer of fixed length.

* `sendstring_`, `getstring` — the code.
* `written` — memory with characters at its start.
* `Reads` — the characters that are read one after the other.
* `Outcome` — the three ways for `getstring` to end.
* `getstring_outcome` — it ends in one of these.
* `getstring_sendstring` — what was sent is read.
-/

namespace Zuckerserv

open Word32

/-! ## The code -/

/-- `sendstring_`. -/
def sendstring_ {σ : Type} (put : σ → UInt8 → σ) : Text → σ → σ
  | [], p => putint_ put p 0
  | c :: t, p => sendstring_ put t (putint_ put p (ofChar c))

/-- `sendstring(const char *t, vector<uchar> &p)` on an empty vector: the bytes of the string. -/
def stringBytes (t : Text) : List UInt8 := sendstring_ vecAdd t []

/-- `sendstring(const char *t, ucharbuf &p)`. -/
def sendstring (t : Text) (p : DataBuf) : DataBuf := sendstring_ DataBuf.put t p

/-- The loop of `getstring`, when `room` characters of `len` are left. -/
def getstringLoop (len : Nat) : Nat → (Nat → UInt8) → DataBuf → (Nat → UInt8) × DataBuf
  | 0, text, p => (Function.update text (len - 1) 0, p)
  | room + 1, text, p =>
    let t := len - (room + 1)
    if p.remaining = 0 then (Function.update text t 0, p)
    else
      let (c, p) := getint p
      let text := Function.update text t (toUchar c)
      if toUchar c ≠ 0 then getstringLoop len room text p else (text, p)

/-- `void getstring(char *text, ucharbuf &p, size_t len)`; `text` is the memory from the pointer
on. -/
def getstring (text : Nat → UInt8) (p : DataBuf) (len : Nat) : (Nat → UInt8) × DataBuf :=
  getstringLoop len len text p

/-! ## Memory -/

/-- The memory with characters at its start. -/
def written (cs : List UInt8) (text : Nat → UInt8) : Nat → UInt8 := fun i => cs.getD i (text i)

@[simp] theorem written_nil (text : Nat → UInt8) : written [] text = text := rfl

/-- One character more. -/
theorem update_written (cs : List UInt8) (text : Nat → UInt8) (c : UInt8) :
    Function.update (written cs text) cs.length c = written (cs ++ [c]) text := by
  funext i
  unfold written
  by_cases hi : i = cs.length
  · subst hi
    simp
  · rw [Function.update_of_ne hi]
    by_cases hlt : i < cs.length
    · rw [List.getD_append _ _ _ _ hlt, List.getD_eq_getElem _ _ hlt]
    · have hle : (cs ++ [c]).length ≤ i := by
        rw [List.length_append, List.length_singleton]
        omega
      rw [List.getD_eq_default _ _ (by omega), List.getD_eq_default _ _ hle]

/-- Another character in the place of the last one. -/
theorem update_written_last (cs : List UInt8) (text : Nat → UInt8) (c d : UInt8) :
    Function.update (written (cs ++ [c]) text) cs.length d = written (cs ++ [d]) text := by
  rw [← update_written, ← update_written, Function.update_idem]

/-- What lies behind stays as it is. -/
theorem written_of_length_le {cs : List UInt8} {i : Nat} (h : cs.length ≤ i)
    (text : Nat → UInt8) : written cs text i = text i := List.getD_eq_default _ _ h

/-! ## Reading -/

/-- The characters of a message one after the other; the buffer is not at its end before any. -/
inductive Reads : DataBuf → List UInt8 → DataBuf → Prop
  | nil (p : DataBuf) : Reads p [] p
  | cons {p q : DataBuf} {cs : List UInt8} (h : p.remaining ≠ 0) (hcs : Reads (getint p).2 cs q) :
      Reads p (toUchar (getint p).1 :: cs) q

theorem Reads.append {p q r : DataBuf} {cs ds : List UInt8} (hcs : Reads p cs q)
    (hds : Reads q ds r) : Reads p (cs ++ ds) r := by
  induction hcs with
  | nil => exact hds
  | cons h _ ih => exact .cons h (ih hds)

/-- Reading goes forward in the same buffer. -/
theorem Reads.buf_eq {p q : DataBuf} {cs : List UInt8} (h : Reads p cs q) :
    q.buf = p.buf ∧ p.len ≤ q.len := by
  induction h with
  | nil => exact ⟨rfl, Nat.le_refl _⟩
  | @cons p q cs _ _ ih =>
    rw [getint_eq] at ih
    exact ⟨ih.1, (p.len_le_reads _).trans ih.2⟩

/-- While the characters are not zero and there is room for them, the loop reads them all. -/
theorem Reads.getstringLoop {p q : DataBuf} {cs : List UInt8} (h : Reads p cs q) (hcs : 0 ∉ cs)
    {len room : Nat} {pre : List UInt8} (text : Nat → UInt8)
    (hlen : pre.length + cs.length + room = len) :
    getstringLoop len (cs.length + room) (written pre text) p =
      Zuckerserv.getstringLoop len room (written (pre ++ cs) text) q := by
  induction h generalizing pre with
  | nil =>
    rw [List.append_nil, List.length_nil, Nat.zero_add]
  | @cons p q cs h _ ih =>
    rw [List.length_cons] at hlen
    have hc : toUchar (getint p).1 ≠ 0 := fun hc => hcs (List.mem_cons.mpr (.inl hc.symm))
    have ht : len - (cs.length + room + 1) = pre.length := by omega
    rw [List.length_cons, Nat.add_right_comm, Zuckerserv.getstringLoop, if_neg h]
    dsimp only
    rw [if_pos hc, ht, update_written, ih (fun hmem => hcs (List.mem_cons_of_mem _ hmem)),
      List.append_assoc, List.singleton_append]
    rw [List.length_append, List.length_singleton]
    omega

/-- The three ways to end, with the string that is left in the memory: at a zero, at the end of
the buffer, and when the memory is full. -/
inductive Outcome (len : Nat) (p : DataBuf) : Text → DataBuf → Prop
  | terminated {s : Text} {q : DataBuf} (hread : Reads p (s ++ [0]) q) (hs : 0 ∉ s)
      (hlen : s.length < len) : Outcome len p s q
  | ended {s : Text} {q : DataBuf} (hread : Reads p s q) (hend : q.remaining = 0) (hs : 0 ∉ s)
      (hlen : s.length < len) : Outcome len p s q
  | full {s : Text} {c : UInt8} {q : DataBuf} (hread : Reads p (s ++ [c]) q) (hs : 0 ∉ s ++ [c])
      (hlen : s.length + 1 = len) : Outcome len p s q

theorem Outcome.bounds {len : Nat} {p q : DataBuf} {s : Text} (h : Outcome len p s q) :
    0 ∉ s ∧ s.length < len ∧ q.buf = p.buf ∧ p.len ≤ q.len := by
  cases h with
  | terminated hread hs hlt => exact ⟨hs, hlt, hread.buf_eq⟩
  | ended hread _ hs hlt => exact ⟨hs, hlt, hread.buf_eq⟩
  | full hread hs hfull =>
    exact ⟨fun hmem => hs (List.mem_append_left _ hmem), by omega, hread.buf_eq⟩

/-- `getstring` ends in one of the three ways, and leaves a string with its zero. -/
theorem getstring_outcome {len : Nat} (hlen : 1 ≤ len) (text : Nat → UInt8) (p : DataBuf) :
    ∃ s q, getstring text p len = (written (s ++ [0]) text, q) ∧ Outcome len p s q := by
  have hloop (room : Nat) (pre : List UInt8) (r : DataBuf) (hread : Reads p pre r) (hpre : 0 ∉ pre)
      (hroom : pre.length + room = len) : ∃ s q,
      getstringLoop len room (written pre text) r = (written (s ++ [0]) text, q) ∧
        Outcome len p s q := by
    induction room generalizing pre r with
    | zero =>
      -- the memory is full: the last character gives way to the zero
      rcases List.eq_nil_or_concat pre with rfl | ⟨s, c, rfl⟩
      · rw [List.length_nil] at hroom
        omega
      · rw [List.concat_eq_append] at *
        rw [List.length_append, List.length_singleton] at hroom
        have ht : len - 1 = s.length := by omega
        refine ⟨s, r, ?_, .full hread hpre (by omega)⟩
        rw [getstringLoop, ht, update_written_last]
    | succ room ih =>
      have ht : len - (room + 1) = pre.length := by omega
      rw [getstringLoop]
      by_cases hend : r.remaining = 0
      · rw [if_pos hend, ht, update_written]
        exact ⟨pre, r, rfl, .ended hread hend hpre (by omega)⟩
      · have hnext := hread.append (.cons hend (.nil _))
        rw [if_neg hend]
        dsimp only
        rw [ht, update_written]
        by_cases hc : toUchar (getint r).1 = 0
        · rw [if_neg (not_not.mpr hc), hc]
          rw [hc] at hnext
          exact ⟨pre, _, rfl, .terminated hnext hpre (by omega)⟩
        · rw [if_pos hc]
          refine ih _ _ hnext (fun hmem => ?_) ?_
          · rcases List.mem_append.mp hmem with hmem | hmem
            · exact hpre hmem
            · exact hc (List.mem_singleton.mp hmem).symm
          · rw [List.length_append, List.length_singleton]
            omega
  exact hloop len [] p (.nil p) List.not_mem_nil (Nat.zero_add _)

/-! ## What was sent -/

/-- The bytes of the characters, without the zero at the end. -/
def charsBytes (cs : List UInt8) : List UInt8 := cs.flatMap fun c => intBytes (ofChar c)

theorem charsBytes_cons (c : UInt8) (cs : List UInt8) :
    charsBytes (c :: cs) = intBytes (ofChar c) ++ charsBytes cs := List.flatMap_cons

theorem charsBytes_append (cs ds : List UInt8) :
    charsBytes (cs ++ ds) = charsBytes cs ++ charsBytes ds := List.flatMap_append

theorem sendstring_eq_foldl {σ : Type} (put : σ → UInt8 → σ) (t : Text) (p : σ) :
    sendstring_ put t p = (charsBytes t ++ intBytes 0).foldl put p := by
  induction t generalizing p with
  | nil => exact putint_eq_foldl put p 0
  | cons c t ih =>
    rw [sendstring_, ih, putint_eq_foldl, charsBytes_cons]
    simp only [List.foldl_append]

/-- Bytes that are added one by one. -/
theorem foldl_vecAdd (bs cs : List UInt8) : bs.foldl vecAdd cs = cs ++ bs := by
  induction bs generalizing cs with
  | nil => exact (List.append_nil cs).symm
  | cons b bs ih => simp [ih, vecAdd]

theorem stringBytes_eq (t : Text) : stringBytes t = charsBytes t ++ intBytes 0 := by
  rw [stringBytes, sendstring_eq_foldl, foldl_vecAdd, List.nil_append]

/-- A string that fits is written as its bytes. -/
theorem written_sendstring {t : Text} {p : DataBuf} (h : (stringBytes t).length ≤ p.remaining) :
    (sendstring t p).written = p.written ++ stringBytes t := by
  rw [stringBytes_eq] at h ⊢
  rw [sendstring, sendstring_eq_foldl, DataBuf.foldl_put h, DataBuf.written_putVals h]

/-- Faced with the bytes of characters, these are read, and exactly these bytes. -/
theorem reads_charsBytes {p : DataBuf} {cs bs : List UInt8} (h : p.rest = charsBytes cs ++ bs) :
    Reads p cs (p.skip (charsBytes cs).length) := by
  induction cs generalizing p with
  | nil =>
    rw [charsBytes, List.flatMap_nil, List.length_nil, DataBuf.skip_zero]
    exact .nil p
  | cons c cs ih =>
    rw [charsBytes_cons, List.append_assoc] at h
    have hget := getint_of_rest h
    have hrest := DataBuf.rest_skip_of_rest h
    have hremaining : p.remaining ≠ 0 := by
      have := DataBuf.length_le_of_rest h
      have := length_intBytes_pos (ofChar c)
      omega
    have htail : Reads (getint p).2 cs
        ((p.skip (intBytes (ofChar c)).length).skip (charsBytes cs).length) := by
      rw [hget]
      exact ih hrest
    have hcons := Reads.cons hremaining htail
    rw [hget, toUchar_ofChar, DataBuf.skip_skip] at hcons
    rwa [charsBytes_cons, List.length_append]

theorem Reads.split {p q : DataBuf} {cs ds : List UInt8} (h : Reads p (cs ++ ds) q) :
    ∃ r, Reads p cs r ∧ Reads r ds q := by
  induction cs generalizing p with
  | nil => exact ⟨p, .nil p, h⟩
  | cons c cs ih =>
    cases h with
    | cons hp hcs =>
      obtain ⟨r, hr, hq⟩ := ih hcs
      exact ⟨r, .cons hp hr, hq⟩

/-- A string that fits is read together with its zero. -/
theorem getstring_of_lt {p q : DataBuf} {s : Text} {len : Nat} (h : Reads p (s ++ [0]) q)
    (hs : 0 ∉ s) (hlen : s.length < len) (text : Nat → UInt8) :
    getstring text p len = (written (s ++ [0]) text, q) := by
  obtain ⟨r, hr, hq⟩ := h.split
  obtain ⟨room, rfl⟩ : ∃ room, len = s.length + (room + 1) := ⟨len - s.length - 1, by omega⟩
  have hlen' : ([] : List UInt8).length + s.length + (room + 1) = s.length + (room + 1) := by
    rw [List.length_nil, Nat.zero_add]
  have hloop := hr.getstringLoop hs text hlen'
  rw [written_nil] at hloop
  rw [getstring, hloop, getstringLoop]
  generalize hlast : ([0] : List UInt8) = last at hq
  cases hq with
  | nil => cases hlast
  | cons hremaining hnil =>
    obtain ⟨hzero, rfl⟩ := List.cons.inj hlast
    cases hnil
    have ht : s.length + (room + 1) - (room + 1) = s.length := by omega
    rw [if_neg hremaining, ht]
    dsimp only
    rw [if_neg (not_not.mpr hzero.symm), ← hzero, List.nil_append, update_written]

/-- Of a string that does not fit, as much is read as there is memory; the last character gives
way to the zero. -/
theorem getstring_of_full {p q : DataBuf} {s : Text} {c : UInt8} (h : Reads p (s ++ [c]) q)
    (hs : 0 ∉ s ++ [c]) (text : Nat → UInt8) :
    getstring text p (s.length + 1) = (written (s ++ [0]) text, q) := by
  have hlen : ([] : List UInt8).length + (s ++ [c]).length + 0 = s.length + 1 := by
    rw [List.length_nil, Nat.zero_add, List.length_append, List.length_singleton]
  have hloop := h.getstringLoop hs text hlen
  rw [written_nil, Nat.add_zero, List.length_append, List.length_singleton, List.nil_append,
    getstringLoop, Nat.add_sub_cancel, update_written_last] at hloop
  exact hloop

/-- Faced with the bytes of a string, `getstring` reads as much of it as there is memory. -/
theorem getstring_of_rest {p : DataBuf} {s : Text} {bs : List UInt8} (hs : 0 ∉ s)
    (h : p.rest = stringBytes s ++ bs) {len : Nat} (hlen : 1 ≤ len) (text : Nat → UInt8) :
    (s.length < len → getstring text p len =
      (written (s ++ [0]) text, p.skip (stringBytes s).length)) ∧
    (len ≤ s.length → getstring text p len =
      (written (s.take (len - 1) ++ [0]) text, p.skip (charsBytes (s.take len)).length)) := by
  refine ⟨fun hlt => ?_, fun hle => ?_⟩
  · have hbytes : stringBytes s = charsBytes (s ++ [0]) := by
      rw [stringBytes_eq, charsBytes_append]
      rfl
    rw [hbytes] at h ⊢
    exact getstring_of_lt (reads_charsBytes h) hs hlt text
  · have hsplit : s.take len = s.take (len - 1) ++ [s[len - 1]] := by
      rw [List.take_append_getElem, Nat.sub_add_cancel hlen]
    have hrest : p.rest = charsBytes (s.take len) ++
        (charsBytes (s.drop len) ++ intBytes 0 ++ bs) := by
      rw [h, stringBytes_eq, ← List.append_assoc, ← List.append_assoc, ← charsBytes_append,
        List.take_append_drop]
    have hnot : 0 ∉ s.take len := fun hmem => hs (List.mem_of_mem_take hmem)
    have hread := reads_charsBytes hrest
    rw [hsplit] at hnot hread
    have hfull := getstring_of_full hread hnot text
    rw [List.length_take, Nat.min_eq_left (by omega), Nat.sub_add_cancel hlen, ← hsplit] at hfull
    exact hfull

/-- For every memory of at least one byte. What `sendstring` has sent is read by `getstring`, with
anything behind it: a string that fits is returned and exactly its bytes are read; of a longer one
`len - 1` characters are returned. On any input `getstring` leaves a string of less than `len`
characters and a zero, writes nothing behind the zero, and ends in one of the three ways: at a
zero, at the end of the buffer, or when the memory is full. -/
theorem getstring_sendstring {len : Nat} (hlen : 1 ≤ len) (text : Nat → UInt8) (p : DataBuf) :
    (∀ (s : Text) (w : DataBuf), (stringBytes s).length ≤ w.remaining →
      (sendstring s w).written = w.written ++ stringBytes s) ∧
    (∀ (s : Text) (following : List UInt8), 0 ∉ s → p.rest = stringBytes s ++ following →
      (s.length < len → getstring text p len =
        (written (s ++ [0]) text, p.skip (stringBytes s).length)) ∧
      (len ≤ s.length → getstring text p len =
        (written (s.take (len - 1) ++ [0]) text, p.skip (charsBytes (s.take len)).length))) ∧
    ∃ s q, getstring text p len = (written (s ++ [0]) text, q) ∧ 0 ∉ s ∧ s.length < len ∧
      (∀ i, len ≤ i → (getstring text p len).1 i = text i) ∧
      Outcome len p s q ∧ q.buf = p.buf ∧ p.len ≤ q.len := by
  refine ⟨fun s w hw => written_sendstring hw,
    fun s following hs hrest => getstring_of_rest hs hrest hlen text, ?_⟩
  obtain ⟨s, q, hget, hout⟩ := getstring_outcome hlen text p
  obtain ⟨hs, hlt, hbuf⟩ := hout.bounds
  refine ⟨s, q, hget, hs, hlt, fun i hi => ?_, hout, hbuf⟩
  rw [hget]
  refine written_of_length_le ?_ text
  rw [List.length_append, List.length_singleton]
  omega

theorem getstring_sendstring_short : (∀ (s : Text) (w : DataBuf),
      (stringBytes s).length ≤ w.remaining →
        (sendstring s w).written = w.written ++ stringBytes s) ∧
    (∀ (s : Text) (following : List UInt8), 0 ∉ s →
      (DataBuf.ofBytes [72, 105, 0, 7]).rest = stringBytes s ++ following →
      (s.length < 3 → getstring (fun _ => 255) (DataBuf.ofBytes [72, 105, 0, 7]) 3 =
        (written (s ++ [0]) fun _ => 255,
          (DataBuf.ofBytes [72, 105, 0, 7]).skip (stringBytes s).length)) ∧
      (3 ≤ s.length → getstring (fun _ => 255) (DataBuf.ofBytes [72, 105, 0, 7]) 3 =
        (written (s.take (3 - 1) ++ [0]) fun _ => 255,
          (DataBuf.ofBytes [72, 105, 0, 7]).skip (charsBytes (s.take 3)).length))) ∧
    ∃ s q, getstring (fun _ => 255) (DataBuf.ofBytes [72, 105, 0, 7]) 3 =
        (written (s ++ [0]) fun _ => 255, q) ∧ 0 ∉ s ∧ s.length < 3 ∧
      (∀ i, 3 ≤ i →
        (getstring (fun _ => 255) (DataBuf.ofBytes [72, 105, 0, 7]) 3).1 i = (fun _ => 255) i) ∧
      Outcome 3 (DataBuf.ofBytes [72, 105, 0, 7]) s q ∧
      q.buf = (DataBuf.ofBytes [72, 105, 0, 7]).buf ∧
      (DataBuf.ofBytes [72, 105, 0, 7]).len ≤ q.len :=
  getstring_sendstring (by decide) _ _

end Zuckerserv
