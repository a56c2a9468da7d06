import Mathlib.Data.Nat.Digits.Defs
import Zuckerserv.Lib.Lines

/-!
# The lines to the auth server

The game server puts the id of a request, and what its clients have sent, into lines of text. The
auth server cuts what it gets into lines, and reads each with `sscanf`. What a client has sent may
itself have a newline in it, and then there are more lines.

* `reqauthText`, `confauthText` — what the game server sends.
* `parseLine` — what the auth server reads.
* `parse_reqauthText`, `parse_confauthText` — without a newline, one line comes of each, and at most
  the command that is meant.
-/

namespace Zuckerserv

namespace AuthLink

/-- Text; a character stands for a byte. -/
abbrev Text : Type := List Char

/-! ## The game server -/

/-- `string.format("reqauth %i %s", id, name)`, and the domain if there is one, with a newline. -/
def reqauthText (id : Nat) (name : Text) (domain : Option Text) : Text :=
  "reqauth ".toList ++ (Nat.toDigits 10 id ++ ' ' :: (name ++
    domain.elim [] (' ' :: ·) ++ ['\n']))

/-- `string.format("confauth %i %s\n", id, answer)`. -/
def confauthText (id : Nat) (answer : Text) : Text :=
  "confauth ".toList ++ (Nat.toDigits 10 id ++ ' ' :: (answer ++ ['\n']))

/-- The lines of a text that ends in a newline. -/
def linesOf (text : Text) : List Text := (Lines.cut '\n' text).1

/-! ## The auth server -/

/-- A command of a line. -/
inductive Line
  | reqauth (id : Nat) (user domain : Text)
  | confauth (id : Nat) (val : Text)
  | queryId (id : Nat) (user domain : Text)
  deriving DecidableEq

/-- `isspace(c)`. -/
def isspace (c : Char) : Bool := c == ' ' || (decide (9 ≤ c.toNat) && decide (c.toNat ≤ 13))

/-- A word of a format, which has to be there. -/
def scanLiteral : Text → Text → Option Text
  | [], text => some text
  | c :: word, c' :: text => if c = c' then scanLiteral word text else none
  | _ :: _, [] => none

/-- The digits of a number, as `strtoul` reads them into 64 bits; 32 of them are kept. -/
def unsignedValue (negative : Bool) (digits : Text) : Nat :=
  let n := Nat.ofDigitChars 10 digits 0
  (if 2 ^ 64 ≤ n then 2 ^ 64 - 1 else if negative then 2 ^ 64 - n else n) % 2 ^ 32

/-- The sign of a number, and what is behind it. -/
def scanSign : Text → Bool × Text
  | '-' :: text => (true, text)
  | '+' :: text => (false, text)
  | text => (false, text)

/-- `%u`. -/
def scanUnsigned (text : Text) : Option (Nat × Text) :=
  let (negative, text) := scanSign (text.dropWhile isspace)
  let digits := text.takeWhile Char.isDigit
  if digits = [] then none
  else some (unsignedValue negative digits, text.dropWhile Char.isDigit)

/-- `%100s`. -/
def scanWord (text : Text) : Option (Text × Text) :=
  let text := text.dropWhile isspace
  let word := (text.takeWhile fun c => !isspace c).take 100
  if word = [] then none else some (word, text.drop word.length)

/-- A word of a format and `%u` behind it; the blank between them is any blanks, which `%u` leaves
out in any case. -/
def scanId (word : String) (line : Text) : Option (Nat × Text) :=
  (scanLiteral word.toList line).bind scanUnsigned

/-- `sscanf(c.input, "reqauth %u %100s %100s", &id, user, domain) >= 2`. -/
def scanReqauth (line : Text) : Option Line :=
  (scanId "reqauth" line).bind fun (id, line) => (scanWord line).map fun (user, line) =>
    .reqauth id user ((scanWord line).elim [] Prod.fst)

/-- `sscanf(c.input, "confauth %u %100s", &id, val) == 2`. -/
def scanConfauth (line : Text) : Option Line :=
  (scanId "confauth" line).bind fun (id, line) => (scanWord line).map fun (val, _) =>
    .confauth id val

/-- `sscanf(c.input, "QueryId %u %100s %100s", &id, user, domain) == 3`. -/
def scanQueryId (line : Text) : Option Line :=
  (scanId "QueryId" line).bind fun (id, line) => (scanWord line).bind fun (user, line) =>
    (scanWord line).map fun (domain, _) => .queryId id user domain

/-- The command of a line, which ends at a zero. -/
def parseLine (line : Text) : Option Line :=
  let line := line.takeWhile (· != '\x00')
  (scanReqauth line).or ((scanConfauth line).or (scanQueryId line))

/-! ## What comes of a line -/

variable {id : Nat} {text rest : Text}

/-- A text with a newline at its end, and no other, is one line. -/
theorem linesOf_line (h : '\n' ∉ text) : linesOf (text ++ ['\n']) = [text] := by
  rw [linesOf, Lines.cut_line h]
  rfl

/-- The digits of a number are digits. -/
theorem isDigit_of_mem {c : Char} (h : c ∈ Nat.toDigits 10 id) : c.isDigit = true :=
  Nat.isDigit_of_mem_toDigits (by decide) (by decide) h

/-- A digit is not a blank. -/
theorem isspace_of_isDigit {c : Char} (h : c.isDigit = true) : isspace c = false := by
  rw [Char.isDigit, Bool.and_eq_true, decide_eq_true_eq, decide_eq_true_eq] at h
  have hge : 48 ≤ c.toNat := h.1
  have hne : c ≠ ' ' := by
    rintro rfl
    exact absurd hge (by decide)
  rw [isspace, beq_eq_false_iff_ne.mpr hne, decide_eq_false (p := c.toNat ≤ 13) (by omega),
    Bool.and_false, Bool.or_false]

/-- There is no newline in the digits. -/
theorem newline_notMem_digits (id : Nat) : '\n' ∉ Nat.toDigits 10 id :=
  fun h => absurd (isDigit_of_mem h) (by decide)

/-- The digits end where a blank comes. -/
theorem takeWhile_digits (id : Nat) (rest : Text) :
    (Nat.toDigits 10 id ++ ' ' :: rest).takeWhile Char.isDigit = Nat.toDigits 10 id := by
  rw [List.takeWhile_append_of_pos fun c hc => isDigit_of_mem hc,
    List.takeWhile_cons_of_neg (by decide), List.append_nil]

theorem dropWhile_digits (id : Nat) (rest : Text) :
    (Nat.toDigits 10 id ++ ' ' :: rest).dropWhile Char.isDigit = ' ' :: rest := by
  rw [List.dropWhile_append_of_pos fun c hc => isDigit_of_mem hc,
    List.dropWhile_cons_of_neg (by decide)]

/-- In front of the digits there is no sign. -/
theorem scanSign_digits (id : Nat) (rest : Text) :
    scanSign ((' ' :: (Nat.toDigits 10 id ++ rest)).dropWhile isspace) =
      (false, Nat.toDigits 10 id ++ rest) := by
  rw [List.dropWhile_cons_of_pos (by decide)]
  have hdigits := fun c (hc : c ∈ Nat.toDigits 10 id) => isDigit_of_mem hc
  cases hid : Nat.toDigits 10 id with
  | nil => exact absurd hid Nat.toDigits_ne_nil
  | cons c digits =>
    rw [hid] at hdigits
    have hc := hdigits c List.mem_cons_self
    rw [List.cons_append,
      List.dropWhile_cons_of_neg (Bool.eq_false_iff.mp (isspace_of_isDigit hc))]
    unfold scanSign
    split
    · next heq => rw [(List.cons.inj heq).1] at hc; exact absurd hc (by decide)
    · next heq => rw [(List.cons.inj heq).1] at hc; exact absurd hc (by decide)
    · rfl

/-- The id is read back. -/
theorem scanUnsigned_digits (hid : id < 2 ^ 32) (rest : Text) :
    scanUnsigned (' ' :: (Nat.toDigits 10 id ++ ' ' :: rest)) = some (id, ' ' :: rest) := by
  unfold scanUnsigned
  rw [scanSign_digits]
  dsimp only
  rw [takeWhile_digits, dropWhile_digits, if_neg Nat.toDigits_ne_nil, unsignedValue,
    Nat.ofDigitChars_ten_toDigits]
  have hvalue : (if 2 ^ 64 ≤ id then 2 ^ 64 - 1 else if false = true then 2 ^ 64 - id else id) %
      2 ^ 32 = id := by
    rw [if_neg (by omega), if_neg Bool.false_ne_true, Nat.mod_eq_of_lt hid]
  exact congrArg (fun n => some (n, ' ' :: rest)) hvalue

theorem scanLiteral_append (word text : Text) : scanLiteral word (word ++ text) = some text := by
  induction word with
  | nil => cases text <;> rfl
  | cons c word ih => rw [List.cons_append, scanLiteral, if_pos rfl, ih]

/-- The word and the number of a line are read. -/
theorem scanId_digits (word : String) (hid : id < 2 ^ 32) (rest : Text) :
    scanId word (word.toList ++ ' ' :: (Nat.toDigits 10 id ++ ' ' :: rest)) =
      some (id, ' ' :: rest) := by
  rw [scanId, scanLiteral_append]
  exact scanUnsigned_digits hid rest

/-- A line is not changed in front of its zero. -/
theorem takeWhile_line {word : Text} (hword : word.all (· != '\x00') = true) (id : Nat)
    (rest : Text) : (word ++ ' ' :: (Nat.toDigits 10 id ++ ' ' :: rest)).takeWhile (· != '\x00') =
      word ++ ' ' :: (Nat.toDigits 10 id ++ ' ' :: rest.takeWhile (· != '\x00')) := by
  have hdigits : ∀ c ∈ Nat.toDigits 10 id, (c != '\x00') = true := fun c hc => by
    rw [bne_iff_ne]
    rintro rfl
    exact absurd (isDigit_of_mem hc) (by decide)
  rw [List.takeWhile_append_of_pos (List.all_eq_true.mp hword), List.takeWhile_cons_of_pos (by decide),
    List.takeWhile_append_of_pos hdigits, List.takeWhile_cons_of_pos (by decide)]

/-- What is sent with an id is one line, and the line has the word, the id and the rest. -/
theorem linesOf_text (word : Text) (hword : '\n' ∉ word) (id : Nat) (hrest : '\n' ∉ rest) :
    linesOf (word ++ ' ' :: (Nat.toDigits 10 id ++ ' ' :: (rest ++ ['\n']))) =
      [word ++ ' ' :: (Nat.toDigits 10 id ++ ' ' :: rest)] := by
  have hline : '\n' ∉ word ++ ' ' :: (Nat.toDigits 10 id ++ ' ' :: rest) := by
    simp only [List.mem_append, List.mem_cons, not_or]
    exact ⟨hword, by decide, newline_notMem_digits id, by decide, hrest⟩
  rw [← linesOf_line hline]
  simp only [List.append_assoc, List.cons_append]

/-- A request is one line, and it asks for the id if it is read. -/
theorem parse_reqauthText (hid : id < 2 ^ 32) {name : Text} {domain : Option Text}
    (hname : '\n' ∉ name) (hdomain : ∀ text, domain = some text → '\n' ∉ text) :
    ∃ line, linesOf (reqauthText id name domain) = [line] ∧
      (parseLine line = none ∨ ∃ user domain', parseLine line = some (.reqauth id user domain')) := by
  have hrest : '\n' ∉ name ++ domain.elim [] (' ' :: ·) := by
    rw [List.mem_append, not_or]
    refine ⟨hname, ?_⟩
    cases domain with
    | none => exact List.not_mem_nil
    | some text => exact List.not_mem_cons_of_ne_of_not_mem (by decide) (hdomain text rfl)
  refine ⟨_, linesOf_text "reqauth".toList (by decide) id hrest, ?_⟩
  unfold parseLine
  have hword : "reqauth".toList.all (· != '\x00') = true := by decide
  rw [takeWhile_line hword]
  generalize (name ++ domain.elim [] (' ' :: ·)).takeWhile (· != '\x00') = text
  dsimp only
  have hscan : scanId "reqauth" ("reqauth".toList ++ ' ' :: (Nat.toDigits 10 id ++ ' ' :: text)) =
      some (id, ' ' :: text) := scanId_digits "reqauth" hid text
  have hconfauth (rest : Text) : scanConfauth ("reqauth".toList ++ rest) = none := rfl
  have hqueryId (rest : Text) : scanQueryId ("reqauth".toList ++ rest) = none := rfl
  rw [hconfauth, hqueryId, Option.or_none, Option.or_none, scanReqauth, hscan, Option.bind_some]
  dsimp only
  cases scanWord (' ' :: text) with
  | none => exact .inl rfl
  | some word => exact .inr ⟨_, _, rfl⟩

/-- An answer is one line, and it confirms the id if it is read. -/
theorem parse_confauthText (hid : id < 2 ^ 32) {answer : Text} (hanswer : '\n' ∉ answer) :
    ∃ line, linesOf (confauthText id answer) = [line] ∧
      (parseLine line = none ∨ ∃ val, parseLine line = some (.confauth id val)) := by
  refine ⟨_, linesOf_text "confauth".toList (by decide) id hanswer, ?_⟩
  unfold parseLine
  have hword : "confauth".toList.all (· != '\x00') = true := by decide
  rw [takeWhile_line hword]
  generalize answer.takeWhile (· != '\x00') = text
  dsimp only
  have hreqauth (rest : Text) : scanReqauth ("confauth".toList ++ rest) = none := rfl
  have hscan : scanId "confauth" ("confauth".toList ++ ' ' :: (Nat.toDigits 10 id ++ ' ' :: text)) =
      some (id, ' ' :: text) := scanId_digits "confauth" hid text
  have hqueryId (rest : Text) : scanQueryId ("confauth".toList ++ rest) = none := rfl
  rw [hreqauth, hqueryId, Option.none_or, Option.or_none, scanConfauth, hscan, Option.bind_some]
  dsimp only
  cases scanWord (' ' :: text) with
  | none => exact .inl rfl
  | some word => exact .inr ⟨_, rfl⟩

end AuthLink

end Zuckerserv
