import Zuckerserv.Shared.NetString
import Zuckerserv.Fps.Positions
import Zuckerserv.Fps.Entities

/-!
# The fields of a message

`parsepacket` reads the fields of a message one after the other from the packet; where the next
message begins is where it has stopped.

* `Field`, `readField` — the fields, and how they are read.
* `Forward` — a reader stays in the packet and does not go back.
* `Encodes` — the bytes of a field as a client writes them.
* `Takes` — a reader takes exactly these bytes, whatever follows them.
* `takes_readField`, `takes_readFields` — what a client writes is taken as a whole.
-/

namespace Zuckerserv

namespace Packets

open Word32

/-- The game modes that have messages of their own. -/
inductive Smode
  | capturemode
  | ctfmode
  | collectmode
  deriving DecidableEq, Repr

/-- What of the server the reading depends on. -/
structure View where
  /-- `(ci->state.state==CS_SPECTATOR && !ci->privilege && !ci->local) || !notgotitems ||
  strcmp(ci->clientmap, smapname)`. -/
  ignoresItems : Bool
  /-- `ci->state.state==CS_SPECTATOR`. -/
  spectator : Bool
  smode : Option Smode
  /-- `m_edit`. -/
  edit : Bool
  deriving DecidableEq, Repr

/-- The fields that the cases of `parsepacket` are made of. -/
inductive Field
  | int
  | str (len : Nat)
  /-- A number of rows, and the rows of `n` numbers; the overread flag is looked at before a row
  (`early`) or behind it. -/
  | rows (n : Nat) (early : Bool)
  | npos
  | items
  | editvar
  | clipboard
  deriving DecidableEq, Repr

/-! ## The readers -/

/-- `loopk(n) getint(p)`. -/
def readInts : Nat → DataBuf → DataBuf
  | 0, p => p
  | n + 1, p => readInts n (getint p).2

/-- The loops over hits, bases, flags and tokens. -/
def readRows (n : Nat) (early : Bool) : Nat → DataBuf → DataBuf
  | 0, p => p
  | k + 1, p =>
    if early ∧ p.overread then p
    else
      let p := readInts n p
      if ¬ early ∧ p.overread then p else readRows n early k p

theorem intSize_pos (bs : List UInt8) : 0 < intSize bs := by
  unfold intSize
  split_ifs <;> omega

theorem remaining_getint (p : DataBuf) :
    (getint p).2.remaining = p.remaining - intSize p.rest := by
  rw [getint_eq, ← DataBuf.length_rest, ← DataBuf.length_rest, DataBuf.rest_reads, List.length_drop]

theorem intSize_le_of_overread {p : DataBuf} (h : (getint p).2.overread = false) :
    intSize p.rest ≤ p.remaining := by
  rw [getint_eq, DataBuf.overread_reads, Bool.or_eq_false_iff, decide_eq_false_iff_not] at h
  exact Nat.not_lt.mp h.2

/-- The two loops of `N_ITEMLIST`; the one that takes the items ends at `MAXENTS` too. -/
def readItems (v : View) (p : DataBuf) : DataBuf :=
  if _h : 0 ≤ (getint p).1 ∧ (v.ignoresItems = true ∨ (getint p).1 < Entities.MAXENTS) ∧
      (getint p).2.overread = false then
    readItems v (getint (getint p).2).2
  else (getint p).2
termination_by p.remaining
decreasing_by
  have hpos := intSize_pos p.rest
  have hle := intSize_le_of_overread _h.2.2
  rw [remaining_getint, remaining_getint]
  omega

/-- `N_EDITVAR`: the value of a variable is read by its type. -/
def readEditvar (p : DataBuf) : DataBuf :=
  let (type, p) := getint p
  let p := (getstring (fun _ => 0) p Text.MAXTRANS).2
  if type = 0 then (getint p).2
  else if type = 1 then (p.getVals 4).2
  else if type = 2 then (getstring (fun _ => 0) p Text.MAXTRANS).2
  else p

/-- `N_CLIPBOARD`. -/
def readClipboard (v : View) (p : DataBuf) : DataBuf :=
  let (unpacklen, p) := getint p
  let (packlen, p) := getint p
  if v.spectator then if 0 < packlen then (p.subbuf packlen.toInt).2 else p
  else if packlen ≤ 0 ∨ 65536 < packlen ∨ unpacklen ≤ 0 then
    if 0 < packlen then (p.subbuf packlen.toInt).2 else p
  else (p.getVals packlen.toInt.toNat).2

/-- One field. -/
def readField (v : View) : Field → DataBuf → DataBuf
  | .int, p => (getint p).2
  | .str len, p => (getstring (fun _ => 0) p len).2
  | .rows n early, p => readRows n early (getint p).1.toInt.toNat (getint p).2
  | .npos, p => (getNpos p).2
  | .items, p => readItems v p
  | .editvar, p => readEditvar p
  | .clipboard, p => readClipboard v p

/-- The fields of a message. -/
def readFields (v : View) (fields : List Field) (p : DataBuf) : DataBuf :=
  fields.foldl (fun p field => readField v field p) p

/-! ## Readers go forward -/

/-- The same memory, and not less of it read. -/
structure Forward (p q : DataBuf) : Prop where
  buf : q.buf = p.buf
  le : p.len ≤ q.len

theorem Forward.remaining_le {p q : DataBuf} (h : Forward p q) : q.remaining ≤ p.remaining := by
  unfold DataBuf.remaining DataBuf.maxlen
  rw [h.buf]
  exact Nat.sub_le_sub_left h.le _

variable {p q r : DataBuf} {v : View} {len n : Nat}

theorem Forward.refl (p : DataBuf) : Forward p p := ⟨rfl, Nat.le_refl _⟩

theorem Forward.trans (h : Forward p q) (h' : Forward q r) : Forward p r :=
  ⟨h'.buf.trans h.buf, h.le.trans h'.le⟩

theorem forward_reads (p : DataBuf) (n : Nat) : Forward p (p.reads n) := ⟨rfl, p.len_le_reads n⟩

theorem forward_getint (p : DataBuf) : Forward p (getint p).2 := by
  rw [getint_eq]
  exact forward_reads p _

theorem forward_getstring (hlen : 1 ≤ len) (p : DataBuf) :
    Forward p (getstring (fun _ => 0) p len).2 := by
  obtain ⟨s, q, heq, houtcome⟩ := getstring_outcome hlen (fun _ => 0) p
  rw [heq]
  exact ⟨houtcome.bounds.2.2.1, houtcome.bounds.2.2.2⟩

theorem forward_subbuf (p : DataBuf) (n : Int) : Forward p (p.subbuf n).2 :=
  ⟨rfl, Nat.le_add_right ..⟩

theorem forward_getVals (p : DataBuf) (n : Nat) : Forward p (p.getVals n).2 :=
  ⟨rfl, Nat.le_add_right ..⟩

theorem forward_readInts (n : Nat) (p : DataBuf) : Forward p (readInts n p) := by
  induction n generalizing p with
  | zero => exact Forward.refl p
  | succ n ih => exact (forward_getint p).trans (ih _)

theorem forward_readRows (early : Bool) (k : Nat) (p : DataBuf) :
    Forward p (readRows n early k p) := by
  induction k generalizing p with
  | zero => exact Forward.refl p
  | succ k ih =>
    rw [readRows]
    split
    · exact Forward.refl p
    · dsimp only
      split
      · exact forward_readInts n p
      · exact (forward_readInts n p).trans (ih _)

theorem forward_readItems (v : View) (p : DataBuf) : Forward p (readItems v p) := by
  fun_induction readItems v p with
  | case1 p h ih => exact ((forward_getint p).trans (forward_getint _)).trans ih
  | case2 p h => exact forward_getint p

theorem forward_getNpos (p : DataBuf) : Forward p (getNpos p).2 := by
  rw [(getNpos_snd p).2, (getuint_spec _).2, (getuint_spec _).2, DataBuf.get_eq]
  exact (((forward_reads _ _).trans (forward_reads _ _)).trans (forward_reads _ _)).trans
    (forward_reads _ _)

theorem forward_readEditvar (p : DataBuf) : Forward p (readEditvar p) := by
  have hname := (forward_getint p).trans
    (forward_getstring (show 1 ≤ Text.MAXTRANS by decide) (getint p).2)
  unfold readEditvar
  dsimp only
  split_ifs
  · exact hname.trans (forward_getint _)
  · exact hname.trans (forward_getVals _ _)
  · exact hname.trans (forward_getstring (by decide) _)
  · exact hname

theorem forward_readClipboard (v : View) (p : DataBuf) : Forward p (readClipboard v p) := by
  have hlengths := (forward_getint p).trans (forward_getint (getint p).2)
  unfold readClipboard
  dsimp only
  split_ifs
  · exact hlengths.trans (forward_subbuf _ _)
  · exact hlengths
  · exact hlengths.trans (forward_subbuf _ _)
  · exact hlengths
  · exact hlengths.trans (forward_getVals _ _)

/-- The strings of a list of fields have room for a character. -/
def Roomy (fields : List Field) : Prop := ∀ len, Field.str len ∈ fields → 1 ≤ len

theorem forward_readField {field : Field} (h : ∀ len, field = .str len → 1 ≤ len) (p : DataBuf) :
    Forward p (readField v field p) := by
  cases field with
  | int => exact forward_getint p
  | str len => exact forward_getstring (h len rfl) p
  | rows n early => exact (forward_getint p).trans (forward_readRows early _ _)
  | npos => exact forward_getNpos p
  | items => exact forward_readItems v p
  | editvar => exact forward_readEditvar p
  | clipboard => exact forward_readClipboard v p

theorem forward_readFields {fields : List Field} (h : Roomy fields) (p : DataBuf) :
    Forward p (readFields v fields p) := by
  induction fields generalizing p with
  | nil => exact Forward.refl p
  | cons field fields ih =>
    exact (forward_readField (fun len heq => h len (heq ▸ List.mem_cons_self)) p).trans
      (ih (fun len hlen => h len (List.mem_cons_of_mem _ hlen)) _)

/-! ## What a client writes is taken as a whole -/

/-- The bytes of a field as a client writes them. -/
def Encodes : Field → List UInt8 → Prop
  | .int, w => ∃ n, w = intBytes n
  | .str len, w => ∃ s : Text, 0 ∉ s ∧ s.length < len ∧ w = stringBytes s
  | .rows n _, w => ∃ rows : List (List Int32), (∀ row ∈ rows, row.length = n) ∧
      rows.length < 2 ^ 31 ∧
      w = intBytes (Int32.ofNat rows.length) ++ rows.flatMap (·.flatMap intBytes)
  | .npos, w => ∃ (pcn : Int32) (physstate : UInt8) (flags : Int32) (announced : List UInt8),
      (-2 ^ 28 ≤ pcn.toInt ∧ pcn.toInt < 2 ^ 28) ∧ (-2 ^ 28 ≤ flags.toInt ∧ flags.toInt < 2 ^ 28) ∧
      announced.length = nposSize flags ∧
      w = uintBytes pcn ++ ([physstate] ++ (uintBytes flags ++ announced))
  | .items, w => ∃ (items : List (Int32 × Int32)) (last : Int32),
      (∀ x ∈ items, 0 ≤ x.1 ∧ x.1 < Entities.MAXENTS) ∧ last < 0 ∧
      w = items.flatMap (fun x => intBytes x.1 ++ intBytes x.2) ++ intBytes last
  | .editvar, w => ∃ (type : Int32) (name : Text) (value : List UInt8), 0 ∉ name ∧
      name.length < Text.MAXTRANS ∧ w = intBytes type ++ (stringBytes name ++ value) ∧
      (type = 0 → ∃ n, value = intBytes n) ∧ (type = 1 → value.length = 4) ∧
      (type = 2 → ∃ s : Text, 0 ∉ s ∧ s.length < Text.MAXTRANS ∧ value = stringBytes s) ∧
      (type ≠ 0 → type ≠ 1 → type ≠ 2 → value = [])
  | .clipboard, w => ∃ (unpacklen : Int32) (data : List UInt8), data.length < 2 ^ 31 ∧
      w = intBytes unpacklen ++ (intBytes (Int32.ofNat data.length) ++ data)

/-- The reader takes exactly the bytes `w`, whatever follows them. -/
def Takes (f : DataBuf → DataBuf) (w : List UInt8) : Prop :=
  ∀ p bs, p.overread = false → p.rest = w ++ bs → f p = p.skip w.length

variable {f g : DataBuf → DataBuf} {a b w : List UInt8}

theorem takes_nil : Takes (fun p => p) [] := fun p _ _ _ => p.skip_zero.symm

theorem Takes.comp (hf : Takes f a) (hg : Takes g b) : Takes (fun p => g (f p)) (a ++ b) := by
  intro p bs hover hrest
  rw [List.append_assoc] at hrest
  have hnext := DataBuf.rest_skip_of_rest hrest
  dsimp only
  rw [hf p _ hover hrest, hg (p.skip a.length) bs hover hnext, DataBuf.skip_skip,
    List.length_append]

theorem takes_getint (n : Int32) : Takes (fun p => (getint p).2) (intBytes n) := by
  intro p bs _ hrest
  dsimp only
  rw [getint_of_rest hrest]

theorem takes_getstring {s : Text} (hs : 0 ∉ s) (hlen : s.length < len) :
    Takes (fun p => (getstring (fun _ => 0) p len).2) (stringBytes s) := by
  intro p bs _ hrest
  dsimp only
  rw [(getstring_of_rest hs hrest (Nat.one_le_of_lt hlen) _).1 hlen]

theorem takes_getVals {data : List UInt8} (hn : n = data.length) :
    Takes (fun p => (p.getVals n).2) data := by
  intro p bs _ hrest
  dsimp only
  rw [hn, DataBuf.getVals_of_rest hrest]

theorem takes_subbuf {data : List UInt8} {k : Int} (hk : k = data.length) :
    Takes (fun p => (p.subbuf k).2) data := by
  intro p bs _ hrest
  dsimp only
  rw [hk, DataBuf.subbuf_of_rest hrest]

theorem takes_readInts (ns : List Int32) : Takes (readInts ns.length) (ns.flatMap intBytes) := by
  induction ns with
  | nil => exact takes_nil
  | cons n ns ih => exact (takes_getint n).comp ih

theorem takes_readRows {early : Bool} {rows : List (List Int32)}
    (h : ∀ row ∈ rows, row.length = n) :
    Takes (readRows n early rows.length) (rows.flatMap (·.flatMap intBytes)) := by
  induction rows with
  | nil => exact takes_nil
  | cons row rows ih =>
    have hrow := takes_readInts row
    rw [h row List.mem_cons_self] at hrow
    have hrows := ih fun x hx => h x (List.mem_cons_of_mem _ hx)
    intro p bs hover hrest
    rw [List.length_cons, readRows, if_neg (by simp [hover])]
    dsimp only
    rw [List.flatMap_cons, List.append_assoc] at hrest
    have hread := hrow p _ hover hrest
    rw [if_neg (by simp [hread, hover])]
    exact (hrow.comp hrows) p bs hover (by rw [List.append_assoc, hrest])

theorem takes_rows {early : Bool} {rows : List (List Int32)} (h : ∀ row ∈ rows, row.length = n)
    (hlen : rows.length < 2 ^ 31) :
    Takes (readField v (.rows n early))
      (intBytes (Int32.ofNat rows.length) ++ rows.flatMap (·.flatMap intBytes)) := by
  intro p bs hover hrest
  have hrest' := hrest
  rw [List.append_assoc] at hrest'
  have hcount : (getint p).1 = Int32.ofNat rows.length := by rw [getint_of_rest hrest']
  rw [readField, hcount, Int32.toInt_ofNat_of_lt hlen, Int.toNat_natCast]
  exact ((takes_getint _).comp (takes_readRows h)) p bs hover hrest

theorem takes_npos (h : Encodes .npos w) : Takes (fun p => (getNpos p).2) w := by
  obtain ⟨pcn, physstate, flags, announced, hpcn, hflags, hlength, rfl⟩ := h
  intro p bs _ hrest
  simp only [List.append_assoc] at hrest
  have r₁ := DataBuf.rest_skip_of_rest hrest
  have r₂ := DataBuf.rest_skip_of_rest r₁
  have r₃ := DataBuf.rest_skip_of_rest r₂
  dsimp only
  rw [(getNpos_snd p).2, getuint_of_rest hpcn hrest, Npos.get_of_rest r₁,
    getuint_of_rest hflags r₂]
  dsimp only
  rw [← hlength, DataBuf.reads_of_rest r₃]
  simp only [DataBuf.skip_skip, List.length_append, Nat.add_assoc]

theorem takes_items {items : List (Int32 × Int32)} {last : Int32}
    (h : ∀ x ∈ items, 0 ≤ x.1 ∧ x.1 < Entities.MAXENTS) (hlast : last < 0) :
    Takes (readItems v)
      (items.flatMap (fun x => intBytes x.1 ++ intBytes x.2) ++ intBytes last) := by
  induction items with
  | nil =>
    intro p bs hover hrest
    rw [List.flatMap_nil, List.nil_append] at hrest ⊢
    rw [readItems, getint_of_rest hrest, dif_neg]
    exact fun hand => absurd hand.1 (Int32.not_le.mpr hlast)
  | cons x items ih =>
    intro p bs hover hrest
    have hx := h x List.mem_cons_self
    have hrest' := hrest
    simp only [List.flatMap_cons, List.append_assoc] at hrest'
    have hpair := ((takes_getint x.1).comp (takes_getint x.2)).comp
      (ih fun y hy => h y (List.mem_cons_of_mem _ hy))
    rw [readItems, dif_pos]
    · rw [List.flatMap_cons, List.append_assoc (intBytes x.1 ++ intBytes x.2)] at hrest ⊢
      exact hpair p bs hover hrest
    · rw [getint_of_rest hrest']
      exact ⟨hx.1, Or.inr hx.2, hover⟩

theorem takes_editvar (h : Encodes .editvar w) : Takes readEditvar w := by
  obtain ⟨type, name, value, hname, hlen, rfl, h0, h1, h2, hother⟩ := h
  intro p bs hover hrest
  have hrest' := hrest
  rw [List.append_assoc] at hrest'
  have hvalue : Takes (fun p => if type = 0 then (getint p).2
      else if type = 1 then (p.getVals 4).2
      else if type = 2 then (getstring (fun _ => 0) p Text.MAXTRANS).2 else p) value := by
    split_ifs with ht0 ht1 ht2
    · obtain ⟨n, rfl⟩ := h0 ht0
      exact takes_getint n
    · exact takes_getVals (h1 ht1).symm
    · obtain ⟨s, hs, hslen, rfl⟩ := h2 ht2
      exact takes_getstring hs hslen
    · rw [hother ht0 ht1 ht2]
      exact takes_nil
  have hread := (takes_getint type).comp ((takes_getstring hname hlen).comp hvalue)
  unfold readEditvar
  dsimp only
  have htype : (getint p).1 = type := by rw [getint_of_rest hrest']
  rw [htype]
  exact hread p bs hover hrest

theorem takes_clipboard (h : Encodes .clipboard w) : Takes (readClipboard v) w := by
  obtain ⟨unpacklen, data, hlen, rfl⟩ := h
  intro p bs hover hrest
  have hrest' := hrest
  rw [List.append_assoc, List.append_assoc] at hrest'
  have hfirst : getint p = (unpacklen, p.skip (intBytes unpacklen).length) := getint_of_rest hrest'
  have hsecond := getint_of_rest (DataBuf.rest_skip_of_rest hrest')
  have hint : (Int32.ofNat data.length).toInt = data.length := Int32.toInt_ofNat_of_lt hlen
  have hempty : ¬ 0 < Int32.ofNat data.length → data = [] := by
    intro hnot
    rw [Int32.lt_iff_toInt_lt, hint] at hnot
    exact List.eq_nil_of_length_eq_zero (by simpa using hnot)
  have hskip : Takes (fun p => if 0 < Int32.ofNat data.length then
      (p.subbuf (Int32.ofNat data.length).toInt).2 else p) data := by
    split_ifs with hpos
    · exact takes_subbuf hint
    · rw [hempty hpos]
      exact takes_nil
  have hdata : Takes (fun p => if v.spectator = true then
        if 0 < Int32.ofNat data.length then (p.subbuf (Int32.ofNat data.length).toInt).2 else p
      else if Int32.ofNat data.length ≤ 0 ∨ 65536 < Int32.ofNat data.length ∨ unpacklen ≤ 0 then
        if 0 < Int32.ofNat data.length then (p.subbuf (Int32.ofNat data.length).toInt).2 else p
      else (p.getVals (Int32.ofNat data.length).toInt.toNat).2) data := by
    by_cases hspec : v.spectator = true
    · simp only [if_pos hspec]
      exact hskip
    by_cases hbad : Int32.ofNat data.length ≤ 0 ∨ 65536 < Int32.ofNat data.length ∨ unpacklen ≤ 0
    · simp only [if_neg hspec, if_pos hbad]
      exact hskip
    · simp only [if_neg hspec, if_neg hbad]
      exact takes_getVals (by rw [hint, Int.toNat_natCast])
  unfold readClipboard
  rw [hfirst]
  dsimp only
  rw [hsecond]
  dsimp only
  have hread := (takes_getint unpacklen).comp
    ((takes_getint (Int32.ofNat data.length)).comp hdata) p bs hover hrest
  dsimp only at hread
  rw [hfirst] at hread
  dsimp only at hread
  rw [hsecond] at hread
  exact hread

theorem takes_readField {field : Field} (h : Encodes field w) : Takes (readField v field) w := by
  cases field with
  | int =>
    obtain ⟨n, rfl⟩ := h
    exact takes_getint n
  | str len =>
    obtain ⟨s, hs, hlen, rfl⟩ := h
    exact takes_getstring hs hlen
  | rows n early =>
    obtain ⟨rows, hrows, hlen, rfl⟩ := h
    exact takes_rows hrows hlen
  | npos =>
    exact takes_npos h
  | items =>
    obtain ⟨items, last, hitems, hlast, rfl⟩ := h
    exact takes_items hitems hlast
  | editvar => exact takes_editvar h
  | clipboard => exact takes_clipboard h

/-- The bytes of the fields of a message. -/
inductive EncodesAll : List Field → List UInt8 → Prop
  | nil : EncodesAll [] []
  | cons {field : Field} {fields : List Field} {a b : List UInt8} (h : Encodes field a)
      (hrest : EncodesAll fields b) : EncodesAll (field :: fields) (a ++ b)

theorem takes_readFields {fields : List Field} (h : EncodesAll fields w) :
    Takes (readFields v fields) w := by
  induction h with
  | nil => exact takes_nil
  | cons h _ ih => exact (takes_readField h).comp ih

end Packets

end Zuckerserv
