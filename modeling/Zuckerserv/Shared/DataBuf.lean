import Mathlib

/-!
# Byte buffers

`databuf<uchar>` of `shared/tools.h`, the buffer every packet of the game is
written to and read from: a piece of memory, a cursor that never leaves it and
two sticky flags.

* `DataBuf` — the buffer; the bound on the cursor is a field, so an access
  outside the memory cannot be written down.
* `get`, `put`, `putVals`, `getVals`, `subbuf`, `offset` — the member functions.
* `rest`, `skip` — what is still unread, and moving the cursor over it: every
  reader of the project is described by how much of `rest` it skips.
-/

namespace Zuckerserv

/-- `databuf<uchar>`: the memory from `buf` on (its length is `maxlen`), the
cursor `len`, and the two bits of `flags`. -/
@[ext]
structure DataBuf where
  /-- The bytes of the buffer; `maxlen` is their number. -/
  buf : List UInt8
  /-- The cursor: where the next byte is read or written. -/
  len : Nat
  /-- The flag `OVERREAD`. -/
  overread : Bool
  /-- The flag `OVERWROTE`. -/
  overwrote : Bool
  /-- The cursor stays inside the memory. -/
  len_le : len ≤ buf.length

namespace DataBuf

/-- `databuf(T *buf, U maxlen)`: a buffer over the given memory, nothing read or
written yet. -/
def ofBytes (bs : List UInt8) : DataBuf := ⟨bs, 0, false, false, Nat.zero_le _⟩

/-- The field `maxlen`. -/
def maxlen (p : DataBuf) : Nat := p.buf.length

/-- `remaining()`. -/
def remaining (p : DataBuf) : Nat := p.maxlen - p.len

/-- `const T &get()`: the next byte, or `0` and the overread flag at the end. -/
def get (p : DataBuf) : UInt8 × DataBuf :=
  if h : p.len < p.buf.length then
    (p.buf[p.len], { p with len := p.len + 1, len_le := h })
  else (0, { p with overread := true })

/-- `void put(const T &val)`. -/
def put (p : DataBuf) (val : UInt8) : DataBuf :=
  if h : p.len < p.buf.length then
    { p with buf := p.buf.set p.len val, len := p.len + 1, len_le := by simpa using h }
  else { p with overwrote := true }

/-- `void put(const T *vals, int numvals)`: as many of the values as fit. -/
def putVals (p : DataBuf) (vals : List UInt8) : DataBuf :=
  let n := min (p.maxlen - p.len) vals.length
  { p with
    buf := p.buf.take p.len ++ vals.take n ++ p.buf.drop (p.len + n)
    len := p.len + n
    overwrote := p.overwrote || decide (p.maxlen - p.len < vals.length)
    len_le := by
      have := p.len_le
      simp only [maxlen, List.length_append, List.length_take, List.length_drop, n]
      omega }

/-- `int get(T *vals, int numvals)`: as many of the values as there are. -/
def getVals (p : DataBuf) (numvals : Nat) : List UInt8 × DataBuf :=
  let n := min (p.maxlen - p.len) numvals
  ((p.buf.drop p.len).take n,
    { p with
      len := p.len + n
      overread := p.overread || decide (n < numvals)
      len_le := by have := p.len_le; simp only [maxlen, n]; omega })

/-- `databuf subbuf(int sz)`: the next `clamp(sz, 0, maxlen-len)` bytes as a
buffer of their own, and this buffer past them. -/
def subbuf (p : DataBuf) (sz : Int) : DataBuf × DataBuf :=
  let n := (max 0 (min sz (p.maxlen - p.len : Nat))).toNat
  (ofBytes ((p.buf.drop p.len).take n),
    { p with
      len := p.len + n
      len_le := by have := p.len_le; simp only [maxlen, n]; omega })

/-- `void offset(int n)`: drop the first `n` bytes of the memory. -/
def offset (p : DataBuf) (n : Nat) : DataBuf :=
  { p with
    buf := p.buf.drop (min n p.maxlen)
    len := p.len - min n p.maxlen
    len_le := by have := p.len_le; simp only [maxlen, List.length_drop]; omega }

/-! ## What is still unread -/

/-- The bytes from the cursor on. -/
def rest (p : DataBuf) : List UInt8 := p.buf.drop p.len

/-- The buffer with its cursor moved over the next `n` bytes. -/
def skip (p : DataBuf) (n : Nat) : DataBuf :=
  { p with len := min (p.len + n) p.buf.length, len_le := Nat.min_le_right _ _ }

/-- The buffer with the overread flag set. -/
def setOverread (p : DataBuf) : DataBuf := { p with overread := true }

@[simp] theorem rest_setOverread (p : DataBuf) : p.setOverread.rest = p.rest := rfl

@[simp] theorem buf_setOverread (p : DataBuf) : p.setOverread.buf = p.buf := rfl

@[simp] theorem len_setOverread (p : DataBuf) : p.setOverread.len = p.len := rfl

@[simp] theorem overread_setOverread (p : DataBuf) : p.setOverread.overread = true := rfl

@[simp] theorem buf_skip (p : DataBuf) (n : Nat) : (p.skip n).buf = p.buf := rfl

@[simp] theorem overread_skip (p : DataBuf) (n : Nat) : (p.skip n).overread = p.overread := rfl

@[simp] theorem len_ofBytes (bs : List UInt8) : (ofBytes bs).len = 0 := rfl

@[simp] theorem rest_ofBytes (bs : List UInt8) : (ofBytes bs).rest = bs := by
  simp [rest, ofBytes]

@[simp] theorem overread_ofBytes (bs : List UInt8) : (ofBytes bs).overread = false := rfl

@[simp] theorem length_rest (p : DataBuf) : p.rest.length = p.remaining := by
  simp [rest, remaining, maxlen]

theorem len_skip (p : DataBuf) {n : Nat} (h : n ≤ p.remaining) : (p.skip n).len = p.len + n := by
  have := p.len_le
  simp only [remaining, maxlen] at h
  simp only [skip]
  omega

@[simp] theorem rest_skip (p : DataBuf) (n : Nat) : (p.skip n).rest = p.rest.drop n := by
  simp only [rest, skip, List.drop_drop]
  by_cases h : p.len + n ≤ p.buf.length
  · rw [Nat.min_eq_left h]
  · rw [Nat.min_eq_right (by omega), List.drop_length, List.drop_eq_nil_of_le (by omega)]

@[simp] theorem skip_zero (p : DataBuf) : p.skip 0 = p := by
  have := p.len_le
  ext <;> simp [skip]
  omega

@[simp] theorem skip_skip (p : DataBuf) (m n : Nat) : (p.skip m).skip n = p.skip (m + n) := by
  ext <;> simp [skip]
  omega

/-! ## Reading bytes -/

theorem get_of_rest_cons {p : DataBuf} {b : UInt8} {bs : List UInt8} (h : p.rest = b :: bs) :
    p.get = (b, p.skip 1) := by
  have hlen : p.len < p.buf.length := by
    by_contra hc
    rw [rest, List.drop_eq_nil_of_le (by omega)] at h
    exact absurd h (by simp)
  have hb : p.buf[p.len] = b := by
    rw [rest, List.drop_eq_getElem_cons hlen] at h
    exact (List.cons.inj h).1
  rw [get, dif_pos hlen, hb]
  refine Prod.ext rfl ?_
  ext <;> simp [skip]
  omega

@[simp] theorem buf_get (p : DataBuf) : p.get.2.buf = p.buf := by
  rw [get]
  split <;> rfl

/-- The buffer after `n` calls of `get`: past the bytes that are there, and with
the overread flag set when `n` asked for more. -/
def reads (p : DataBuf) (n : Nat) : DataBuf :=
  { p with
    len := min (p.len + n) p.buf.length
    overread := p.overread || decide (p.remaining < n)
    len_le := Nat.min_le_right _ _ }

@[simp] theorem buf_reads (p : DataBuf) (n : Nat) : (p.reads n).buf = p.buf := rfl

theorem overread_reads (p : DataBuf) (n : Nat) :
    (p.reads n).overread = (p.overread || decide (p.remaining < n)) := rfl

@[simp] theorem reads_zero (p : DataBuf) : p.reads 0 = p := by
  have := p.len_le
  ext <;> simp [reads]
  omega

theorem reads_of_le {p : DataBuf} {n : Nat} (h : n ≤ p.remaining) : p.reads n = p.skip n := by
  ext <;> simp [reads, skip]
  omega

@[simp] theorem rest_reads (p : DataBuf) (n : Nat) : (p.reads n).rest = p.rest.drop n :=
  p.rest_skip n

@[simp] theorem reads_reads (p : DataBuf) (m n : Nat) : (p.reads m).reads n = p.reads (m + n) := by
  have := p.len_le
  ext
  · rfl
  · simp only [reads]
    omega
  · have h : (p.buf.length - p.len < m ∨ p.buf.length - min (p.len + m) p.buf.length < n) ↔
        p.buf.length - p.len < m + n := by omega
    show (p.overread || decide (p.buf.length - p.len < m) ||
        decide (p.buf.length - min (p.len + m) p.buf.length < n)) =
      (p.overread || decide (p.buf.length - p.len < m + n))
    rw [Bool.or_assoc, ← Bool.decide_or, decide_eq_decide.mpr h]
  · rfl

theorem len_le_reads (p : DataBuf) (n : Nat) : p.len ≤ (p.reads n).len :=
  le_min (Nat.le_add_right _ _) p.len_le

/-- The next call of `get` after `n` of them. -/
theorem get_reads (p : DataBuf) (n : Nat) :
    (p.reads n).get = (p.rest.getD n 0, p.reads (n + 1)) := by
  have hlen := p.len_le
  have hrem : p.remaining = p.buf.length - p.len := rfl
  by_cases h : p.len + n < p.buf.length
  · have hlt : (p.reads n).len < (p.reads n).buf.length := by
      show min (p.len + n) p.buf.length < p.buf.length
      omega
    have hmin : min (p.len + n) p.buf.length = p.len + n := by omega
    rw [get, dif_pos hlt]
    refine Prod.ext ?_ ?_
    · simp [reads, rest, hmin, h]
    · ext <;> simp only [reads, hmin]
      · omega
      · have h1 : ¬ p.remaining < n := by omega
        have h2 : ¬ p.remaining < n + 1 := by omega
        rw [decide_eq_false h1, decide_eq_false h2]
  · have hlt : ¬ (p.reads n).len < (p.reads n).buf.length := by
      show ¬ min (p.len + n) p.buf.length < p.buf.length
      omega
    rw [get, dif_neg hlt]
    refine Prod.ext ?_ ?_
    · have hnone : p.buf[p.len + n]? = none := List.getElem?_eq_none (by omega)
      simp [rest, hnone]
    · ext <;> simp [reads]
      · omega
      · omega

theorem get_eq (p : DataBuf) : p.get = (p.rest.getD 0 0, p.reads 1) := by
  simpa using p.get_reads 0

/-! ### Bytes that lie ahead -/

theorem length_le_of_rest {p : DataBuf} {as bs : List UInt8} (h : p.rest = as ++ bs) :
    as.length ≤ p.remaining := by
  rw [← p.length_rest, h, List.length_append]
  exact Nat.le_add_right _ _

theorem reads_of_rest {p : DataBuf} {as bs : List UInt8} (h : p.rest = as ++ bs) :
    p.reads as.length = p.skip as.length := reads_of_le (length_le_of_rest h)

/-- Behind some bytes the others follow. -/
theorem rest_skip_of_rest {p : DataBuf} {as bs : List UInt8} (h : p.rest = as ++ bs) :
    (p.skip as.length).rest = bs := by
  rw [rest_skip, h, List.drop_left]

theorem getVals_of_rest {p : DataBuf} {vals bs : List UInt8} (h : p.rest = vals ++ bs) :
    p.getVals vals.length = (vals, p.skip vals.length) := by
  have hrem : p.maxlen - p.len = vals.length + bs.length := by
    have := congrArg List.length h
    simpa [remaining] using this
  have hlen := p.len_le
  have hmin : min (p.maxlen - p.len) vals.length = vals.length := by omega
  refine Prod.ext ?_ ?_
  · show (p.buf.drop p.len).take (min (p.maxlen - p.len) vals.length) = vals
    rw [hmin, show p.buf.drop p.len = vals ++ bs from h, List.take_left]
  · ext <;> simp [getVals, skip, hmin]
    simp only [maxlen] at hrem
    omega

theorem subbuf_of_rest {p : DataBuf} {vals bs : List UInt8} (h : p.rest = vals ++ bs) :
    p.subbuf vals.length = (ofBytes vals, p.skip vals.length) := by
  have hrem : p.maxlen - p.len = vals.length + bs.length := by
    have := congrArg List.length h
    simpa [remaining] using this
  have hlen := p.len_le
  have hn : (max 0 (min (vals.length : Int) (p.maxlen - p.len : Nat))).toNat = vals.length := by
    omega
  refine Prod.ext ?_ ?_
  · show ofBytes ((p.buf.drop p.len).take _) = ofBytes vals
    rw [hn, show p.buf.drop p.len = vals ++ bs from h, List.take_left]
  · ext <;> simp only [subbuf, skip, hn]
    simp only [maxlen] at hrem
    omega

/-! ## Writing bytes -/

/-- The bytes before the cursor: what has been written since the cursor was at
the start. -/
def written (p : DataBuf) : List UInt8 := p.buf.take p.len

@[simp] theorem length_written (p : DataBuf) : p.written.length = p.len := by
  simp [written, p.len_le]

theorem putVals_of_le {p : DataBuf} {vals : List UInt8} (h : vals.length ≤ p.remaining) :
    p.putVals vals =
      { p with
        buf := p.written ++ vals ++ p.buf.drop (p.len + vals.length)
        len := p.len + vals.length
        len_le := by simp } := by
  have hmin : min (p.maxlen - p.len) vals.length = vals.length := Nat.min_eq_right h
  have hov : ¬ p.maxlen - p.len < vals.length := not_lt.mpr h
  ext1
  · simp [putVals, hmin, written]
  · simp [putVals, hmin]
  · rfl
  · simp [putVals, hov]

theorem written_putVals {p : DataBuf} {vals : List UInt8} (h : vals.length ≤ p.remaining) :
    (p.putVals vals).written = p.written ++ vals := by
  rw [putVals_of_le h, written, List.take_append_of_le_length (by simp),
    List.take_of_length_le (by simp)]

theorem remaining_putVals {p : DataBuf} {vals : List UInt8} (h : vals.length ≤ p.remaining) :
    (p.putVals vals).remaining = p.remaining - vals.length := by
  have := p.len_le
  rw [putVals_of_le h]
  simp only [remaining, maxlen, List.length_append, List.length_drop, length_written] at h ⊢
  omega

/-- A byte that fits is put as `put(vals, 1)` would put it. -/
theorem put_eq_putVals {p : DataBuf} {val : UInt8} (h : 1 ≤ p.remaining) :
    p.put val = p.putVals [val] := by
  have hlt : p.len < p.buf.length := by
    simp only [remaining, maxlen] at h
    omega
  rw [putVals_of_le (by simpa using h), put, dif_pos hlt]
  ext1
  · simp [written, List.set_eq_take_append_cons_drop, hlt]
  all_goals rfl

theorem putVals_nil (p : DataBuf) : p.putVals [] = p := by
  rw [putVals_of_le (Nat.zero_le _)]
  ext1 <;> simp [written]

/-- Values that fit may be put in two portions. -/
theorem putVals_putVals {p : DataBuf} {us vs : List UInt8}
    (h : us.length + vs.length ≤ p.remaining) :
    (p.putVals us).putVals vs = p.putVals (us ++ vs) := by
  have hus : us.length ≤ p.remaining := by omega
  have hvs : vs.length ≤ (p.putVals us).remaining := by
    rw [remaining_putVals hus]
    omega
  have hboth : (us ++ vs).length ≤ p.remaining := by rwa [List.length_append]
  rw [putVals_of_le hvs, putVals_of_le hboth]
  ext1
  · have hw : p.written.drop (p.len + (us.length + vs.length)) = [] :=
      List.drop_eq_nil_of_le (by rw [length_written]; omega)
    have hu : us.drop (us.length + vs.length) = [] := List.drop_eq_nil_of_le (by omega)
    simp only [written_putVals hus]
    simp [putVals_of_le hus, List.drop_append, Nat.add_assoc, hw, hu]
  · simp [putVals_of_le hus]
    omega
  · simp [putVals_of_le hus]
  · simp [putVals_of_le hus]

/-- Putting bytes that fit one after the other puts them all. -/
theorem foldl_put {vals : List UInt8} {p : DataBuf} (h : vals.length ≤ p.remaining) :
    vals.foldl put p = p.putVals vals := by
  induction vals generalizing p with
  | nil => rw [putVals_nil, List.foldl_nil]
  | cons v vs ih =>
    rw [List.length_cons] at h
    have h1 : [v].length ≤ p.remaining := by
      rw [List.length_singleton]
      omega
    have hvs : vs.length ≤ (p.putVals [v]).remaining := by
      rw [remaining_putVals h1, List.length_singleton]
      omega
    rw [List.foldl_cons, put_eq_putVals h1, ih hvs, putVals_putVals, List.singleton_append]
    rw [List.length_singleton]
    omega

@[simp] theorem maxlen_ofBytes (bs : List UInt8) : (ofBytes bs).maxlen = bs.length := rfl

@[simp] theorem maxlen_putVals (p : DataBuf) (vals : List UInt8) :
    (p.putVals vals).maxlen = p.maxlen := by
  have := p.len_le
  simp only [putVals, maxlen, List.length_append, List.length_take, List.length_drop]
  omega

theorem len_putVals {p : DataBuf} {vals : List UInt8} (h : vals.length ≤ p.remaining) :
    (p.putVals vals).len = p.len + vals.length := by
  rw [putVals_of_le h]

/-! ## Dropping what has been written -/

@[simp] theorem len_offset_len (p : DataBuf) : (p.offset p.len).len = 0 := by
  have := p.len_le
  simp only [offset, maxlen]
  omega

@[simp] theorem buf_offset_len (p : DataBuf) : (p.offset p.len).buf = p.buf.drop p.len := by
  show p.buf.drop (min p.len p.buf.length) = _
  rw [min_eq_left p.len_le]

@[simp] theorem maxlen_offset_len (p : DataBuf) : (p.offset p.len).maxlen = p.maxlen - p.len := by
  simp only [maxlen, buf_offset_len, List.length_drop]

end DataBuf

end Zuckerserv
