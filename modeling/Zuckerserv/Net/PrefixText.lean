import Zuckerserv.Net.Address

/-!
# Prefixes as text

A prefix is written as the four octets of its address, and the number of its bits if there are
fewer than 32. A text is read in pieces, at its dots and its slash.

* `Prefix.toString` — a prefix as text.
* `parseMask`, `parseTokens` — the pieces of a text, where nothing goes wrong.
-/

namespace Zuckerserv

namespace Net

/-! ## Writing and reading -/

/-- `%i` for a number that is not negative. -/
def decimal (n : Nat) : List Char := Nat.toDigits 10 n

/-- `atoi(str)` for a string of digits. -/
def atoi (str : List Char) : Nat := Nat.ofDigitChars 10 str 0

/-- The octet of an address that has `n` bits behind it. -/
def octet (value : BitVec 32) (n : Nat) : Nat := value.toNat / 2 ^ n % 256

/-- `address::to_string(output)`. -/
def addressString (value : BitVec 32) : List Char :=
  decimal (octet value 24) ++ '.' :: (decimal (octet value 16) ++ '.' ::
    (decimal (octet value 8) ++ '.' :: decimal (octet value 0)))

/-- `address_prefix::to_string(output)`. -/
def Prefix.toString (p : Prefix) : List Char :=
  addressString p.value ++ if p.mask < 32 then '/' :: decimal p.mask else []

/-- The digits behind the slash, with room for so many characters. -/
def parseMask : Nat → List Char → List Char → Option (List Char)
  | _, [], token => some token
  | 0, _ :: _, _ => none
  | room + 1, c :: str, token =>
    if '0' ≤ c ∧ c ≤ '9' then parseMask room str (token ++ [c]) else none

/-- The pieces of the address behind those that are complete and the current one, and the mask. -/
def parseTokens : Nat → List Char → List (List Char) → List Char →
    Option (List (List Char) × Option (List Char))
  | _, [], tokens, token => some (tokens ++ [token], none)
  | 0, _ :: _, _, _ => none
  | room + 1, c :: str, tokens, token =>
    if c = '.' then
      if tokens.length = 3 ∨ str = [] then none
      else parseTokens room str (tokens ++ [token]) []
    else if c = '/' then
      if (tokens = [] ∧ token = []) ∨ str = [] then none
      else (parseMask room str []).map fun mask => (tokens ++ [token], some mask)
    else if '0' ≤ c ∧ c ≤ '9' then parseTokens room str tokens (token ++ [c])
    else none

/-! ## Numbers -/

variable {n room : Nat} {str token digits : List Char} {tokens : List (List Char)}

theorem atoi_decimal (n : Nat) : atoi (decimal n) = n := Nat.ofDigitChars_ten_toDigits

/-- A character that can stand in a number. -/
abbrev Digit (c : Char) : Prop := '0' ≤ c ∧ c ≤ '9'

theorem digit_of_isDigit {c : Char} (h : c.isDigit = true) : Digit c := by
  rw [Char.isDigit, Bool.and_eq_true, decide_eq_true_eq, decide_eq_true_eq] at h
  exact h

theorem Digit.ne {c c' : Char} (h : Digit c) (h' : ¬ ('0' ≤ c' ∧ c' ≤ '9')) : c ≠ c' := by
  rintro rfl
  exact h' h

theorem digit_decimal (n : Nat) : ∀ c ∈ decimal n, Digit c := fun _ hc =>
  digit_of_isDigit (Nat.isDigit_of_mem_toDigits (by decide) (by decide) hc)

theorem decimal_ne_nil (n : Nat) : decimal n ≠ [] := Nat.toDigits_ne_nil

theorem length_decimal_le {k : Nat} (h : n < 10 ^ k) (hk : 0 < k) : (decimal n).length ≤ k :=
  (Nat.length_toDigits_le_iff (by decide) hk).mpr h

/-! ## The loops -/

/-- The digits go into the mask. -/
theorem parseMask_digits (hdigits : ∀ c ∈ digits, Digit c) (hroom : digits.length ≤ room)
    (token : List Char) : parseMask room digits token = some (token ++ digits) := by
  induction digits generalizing room token with
  | nil =>
    rw [List.append_nil]
    cases room <;> rfl
  | cons c digits ih =>
    cases room with
    | zero => exact absurd hroom (Nat.not_succ_le_zero _)
    | succ room =>
      have hc : Digit c := hdigits c List.mem_cons_self
      rw [parseMask, if_pos hc, ih (fun c' hc' => hdigits c' (List.mem_cons_of_mem c hc'))
        (Nat.le_of_succ_le_succ hroom), List.append_assoc]
      rfl

/-- The digits go into the current token. -/
theorem parseTokens_digits (hdigits : ∀ c ∈ digits, Digit c) (str : List Char)
    (tokens : List (List Char)) (token : List Char) :
    parseTokens (room + digits.length) (digits ++ str) tokens token =
      parseTokens room str tokens (token ++ digits) := by
  induction digits generalizing token with
  | nil => rw [List.append_nil]; rfl
  | cons c digits ih =>
    have hc : Digit c := hdigits c List.mem_cons_self
    rw [List.cons_append, List.length_cons, ← Nat.add_assoc, parseTokens,
      if_neg (hc.ne (by decide)), if_neg (hc.ne (by decide)), if_pos hc,
      ih fun c' hc' => hdigits c' (List.mem_cons_of_mem c hc'), List.append_assoc]
    rfl

/-- A dot ends the token. -/
theorem parseTokens_dot (hlength : tokens.length < 3) (hstr : str ≠ []) (token : List Char) :
    parseTokens (room + 1) ('.' :: str) tokens token =
      parseTokens room str (tokens ++ [token]) [] := by
  rw [parseTokens, if_pos rfl, if_neg]
  exact not_or.mpr ⟨Nat.ne_of_lt hlength, hstr⟩

/-! ## The round trip -/

theorem octet_lt (value : BitVec 32) (k : Nat) : octet value k < 256 := Nat.mod_lt _ (by decide)

/-- The octets make up the address. -/
theorem ofNat_octets (value : BitVec 32) : BitVec.ofNat 32 (octet value 24 * 2 ^ 24 +
    octet value 16 * 2 ^ 16 + octet value 8 * 2 ^ 8 + octet value 0) = value := by
  have hlt := value.isLt
  have hsum : octet value 24 * 2 ^ 24 + octet value 16 * 2 ^ 16 + octet value 8 * 2 ^ 8 +
      octet value 0 = value.toNat := by
    unfold octet
    omega
  rw [hsum, BitVec.ofNat_toNat, BitVec.setWidth_eq]

end Net

end Zuckerserv
