import Zuckerserv.Shared.NetInt

/-!
# Streams of integers

A message of the protocol is a sequence of `putint` and `putuint` calls, taken
apart by the same sequence of `getint` and `getuint` calls.

* `NetVal` — a value together with the format it is written in; a value too wide
  for `putuint` cannot be built.
* `putAll`, `readAll` — the writer and the reader of a stream. The reader knows the
  formats, not the values.
* `readAll_of_rest` — the reader takes back what the writer put, and no byte more.
* `readAll_snd` — on arbitrary bytes the reader stays in the buffer, and the
  overread flag tells that the stream is cut off.
-/

namespace Zuckerserv

/-- The two integer formats. -/
inductive NetFormat
  | int
  | uint
  deriving DecidableEq, Repr

/-- A value to be written, and the format it is written in. -/
structure NetVal where
  /-- Written with `putint` or with `putuint`. -/
  format : NetFormat
  /-- The value. -/
  n : Int32
  /-- `putuint` keeps 28 bits and a sign. -/
  fits : format = .uint → -2 ^ 28 ≤ n.toInt ∧ n.toInt < 2 ^ 28

namespace NetFormat

/-- Read one value: `getint` or `getuint`. -/
def get : NetFormat → DataBuf → Int32 × DataBuf
  | int, p => getint p
  | uint, p => getuint p

/-- The bytes `get` asks for when it meets `bs`. -/
def size : NetFormat → List UInt8 → Nat
  | int, bs => intSize bs
  | uint, bs => uintSize bs

theorem get_snd (f : NetFormat) (p : DataBuf) : (f.get p).2 = p.reads (f.size p.rest) := by
  cases f with
  | int => exact congrArg Prod.snd (getint_eq p)
  | uint => exact (getuint_spec p).2

/-- Read one value after the other. -/
def readAll : List NetFormat → DataBuf → List Int32 × DataBuf
  | [], p => ([], p)
  | f :: fs, p =>
    let (n, p) := f.get p
    let (ns, p) := readAll fs p
    (n :: ns, p)

/-- The bytes `readAll` asks for when it meets `bs`. -/
def sizeAll : List NetFormat → List UInt8 → Nat
  | [], _ => 0
  | f :: fs, bs => f.size bs + sizeAll fs (bs.drop (f.size bs))

/-- On arbitrary bytes: the reader asks for `sizeAll` bytes, one after the other. -/
theorem readAll_snd (fs : List NetFormat) (p : DataBuf) :
    (readAll fs p).2 = p.reads (sizeAll fs p.rest) := by
  induction fs generalizing p with
  | nil => exact p.reads_zero.symm
  | cons f fs ih =>
    show (readAll fs (f.get p).2).2 = _
    rw [ih, get_snd, DataBuf.reads_reads, DataBuf.rest_reads, sizeAll]

end NetFormat

namespace NetVal

open NetFormat

/-- Write one value: `putint` or `putuint`. -/
def put (p : DataBuf) (v : NetVal) : DataBuf :=
  match v.format with
  | .int => putint p v.n
  | .uint => putuint p v.n

/-- Write one value after the other. -/
def putAll (p : DataBuf) (vs : List NetVal) : DataBuf := vs.foldl put p

/-- The bytes of a value. -/
def bytes (v : NetVal) : List UInt8 :=
  match v.format with
  | .int => intBytes v.n
  | .uint => uintBytes v.n

theorem put_eq_putVals {p : DataBuf} {v : NetVal} (h : v.bytes.length ≤ p.remaining) :
    put p v = p.putVals v.bytes := by
  obtain ⟨f, n, fits⟩ := v
  cases f with
  | int => exact putint_eq_putVals h
  | uint => exact putuint_eq_putVals h

theorem get_of_rest {p : DataBuf} {v : NetVal} {bs : List UInt8} (h : p.rest = v.bytes ++ bs) :
    v.format.get p = (v.n, p.skip v.bytes.length) := by
  obtain ⟨f, n, fits⟩ := v
  cases f with
  | int => exact getint_of_rest h
  | uint => exact getuint_of_rest (fits rfl) h

/-- Writing values that fit puts their bytes. -/
theorem putAll_eq_putVals {vs : List NetVal} {p : DataBuf}
    (h : (vs.flatMap bytes).length ≤ p.remaining) :
    putAll p vs = p.putVals (vs.flatMap bytes) := by
  induction vs generalizing p with
  | nil => exact p.putVals_nil.symm
  | cons v vs ih =>
    rw [List.flatMap_cons, List.length_append] at h
    have hv : v.bytes.length ≤ p.remaining := by omega
    have hvs : (vs.flatMap bytes).length ≤ (p.putVals v.bytes).remaining := by
      rw [DataBuf.remaining_putVals hv]
      omega
    show putAll (put p v) vs = _
    rw [put_eq_putVals hv, ih hvs, List.flatMap_cons, DataBuf.putVals_putVals h]

/-- The reader takes back what the writer put, and stops behind it. -/
theorem readAll_of_rest {vs : List NetVal} {p : DataBuf} {bs : List UInt8}
    (h : p.rest = vs.flatMap bytes ++ bs) :
    readAll (vs.map format) p = (vs.map n, p.skip (vs.flatMap bytes).length) := by
  induction vs generalizing p with
  | nil => simp [readAll]
  | cons v vs ih =>
    rw [List.flatMap_cons, List.append_assoc] at h
    have hrest := DataBuf.rest_skip_of_rest h
    simp only [List.map_cons, readAll, get_of_rest h, ih hrest, DataBuf.skip_skip,
      List.flatMap_cons, List.length_append]

/-! ## Round trip and truncation -/

theorem length_take_le (vs : List NetVal) (k : Nat) :
    ((vs.take k).flatMap bytes).length ≤ (vs.flatMap bytes).length := by
  conv_rhs => rw [← List.take_append_drop k vs, List.flatMap_append, List.length_append]
  exact Nat.le_add_right _ _

/-- **Round trip.** A stream written into a buffer that is large enough is read
back value by value; after `k` reads the cursor is where the writer's cursor was
after `k` writes, and at the end nothing is left. On arbitrary bytes, and for any
sequence of reads, the cursor stays inside the buffer and the overread flag is set
exactly when a value asked for bytes that are not there. -/
theorem readAll_putAll :
    (∀ (vs : List NetVal) (mem : List UInt8), (vs.flatMap bytes).length ≤ mem.length →
      let w := putAll (.ofBytes mem) vs
      let r := DataBuf.ofBytes w.written
      w.overwrote = false ∧
        (∀ k ≤ vs.length,
          (readAll ((vs.take k).map format) r).1 = (vs.take k).map n ∧
            (readAll ((vs.take k).map format) r).2.len = (putAll (.ofBytes mem) (vs.take k)).len ∧
            (readAll ((vs.take k).map format) r).2.overread = false) ∧
        (readAll (vs.map format) r).2.remaining = 0) ∧
      ∀ (fs : List NetFormat) (p : DataBuf),
        (readAll fs p).2.buf = p.buf ∧
          p.len ≤ (readAll fs p).2.len ∧ (readAll fs p).2.len ≤ p.maxlen ∧
          ((readAll fs p).2.overread = true ↔
            p.overread = true ∨ p.remaining < sizeAll fs p.rest) := by
  constructor
  · intro vs mem hsize w r
    have hput (us : List NetVal) (hus : (us.flatMap bytes).length ≤ mem.length) :
        (putAll (.ofBytes mem) us).len = (us.flatMap bytes).length ∧
          (putAll (.ofBytes mem) us).overwrote = false ∧
          (putAll (.ofBytes mem) us).written = us.flatMap bytes := by
      have hrem : (us.flatMap bytes).length ≤ (DataBuf.ofBytes mem).remaining := hus
      rw [putAll_eq_putVals hrem, DataBuf.written_putVals hrem, DataBuf.putVals_of_le hrem]
      exact ⟨Nat.zero_add _, rfl, List.nil_append _⟩
    have hread (k : Nat) : readAll ((vs.take k).map format) r =
        ((vs.take k).map n, r.skip ((vs.take k).flatMap bytes).length) := by
      have hrest : r.rest = (vs.take k).flatMap bytes ++ (vs.drop k).flatMap bytes := by
        rw [DataBuf.rest_ofBytes, (hput vs hsize).2.2, ← List.flatMap_append,
          List.take_append_drop]
      exact readAll_of_rest hrest
    have hrem : r.remaining = (vs.flatMap bytes).length := by
      rw [← DataBuf.length_rest, DataBuf.rest_ofBytes, (hput vs hsize).2.2]
    refine ⟨(hput vs hsize).2.1, fun k _ => ?_, ?_⟩
    · have hk := length_take_le vs k
      rw [hread k, (hput _ (hk.trans hsize)).1, DataBuf.len_skip r (hrem ▸ hk)]
      exact ⟨rfl, Nat.zero_add _, rfl⟩
    · have hall := hread vs.length
      rw [List.take_length] at hall
      rw [hall, ← DataBuf.length_rest, DataBuf.rest_skip, List.length_drop, DataBuf.length_rest,
        hrem, Nat.sub_self]
  · intro fs p
    rw [readAll_snd]
    refine ⟨rfl, p.len_le_reads _, (p.reads _).len_le, ?_⟩
    rw [DataBuf.overread_reads, Bool.or_eq_true, decide_eq_true_eq]

/-- The stream `300, -1, 200` (the last two as `putuint`) in nine bytes. -/
theorem readAll_putAll_three :
    (readAll [.int, .uint, .uint] (.ofBytes (putAll (.ofBytes (List.replicate 9 0))
      [⟨.int, 300, by decide⟩, ⟨.uint, -1, by decide⟩, ⟨.uint, 200, by decide⟩]).written)).1 =
        [300, -1, 200] :=
  ((readAll_putAll.1
    [⟨.int, 300, by decide⟩, ⟨.uint, -1, by decide⟩, ⟨.uint, 200, by decide⟩]
    (List.replicate 9 0) (by decide)).2.1 3 (by decide)).1

end NetVal

end Zuckerserv
