import Mathlib.Order.Nat

/-!
# Texts

The strings of the protocol, in the encoding of the game: their bytes, without the final zero.

* `getstring` — the string at the head of a message.
* `filtertext` — the string without colours and unprintable characters.
* `copystring` — as much of a string as a buffer holds.
-/

namespace Zuckerserv

/-- A string: its bytes, none of which is zero. -/
abbrev Text := List UInt8

namespace Text

instance : LawfulBEq Text := inferInstance

/-- `MAXTRANS`, the size of the buffer that strings are received in. -/
def MAXTRANS : Nat := 5000

/-- `MAXSTRLEN`, the size of a `string`. -/
def MAXSTRLEN : Nat := 260

/-- `iscubespace(c)`. -/
def iscubespace (c : UInt8) : Bool := (9 ≤ c && c ≤ 13) || c == 32

/-- `iscubeprint(c)`. -/
def iscubeprint (c : UInt8) : Bool := c != 0 && !iscubespace c

/-- `getstring(t, p)` for a buffer of `len` bytes: `p` are the integers that remain in the message,
as bytes. -/
def getstring (len : Nat) (p : List UInt8) : Text := (p.takeWhile (· ≠ 0)).take (len - 1)

/-- `filtertext(dst, src, whitespace, forcespace, len)`. -/
def filtertext (whitespace forcespace : Bool) : Nat → Text → Text
  | _, [] => []
  | len, c :: src =>
    if c = 12 then
      -- A colour is two characters.
      match src with
      | [] => []
      | _ :: src => filtertext whitespace forcespace len src
    else if ¬ iscubeprint c ∧ (¬ iscubespace c ∨ ¬ whitespace) then
      filtertext whitespace forcespace len src
    else
      let c := if ¬ iscubeprint c ∧ forcespace then 32 else c
      if len = 1 then [c] else c :: filtertext whitespace forcespace (len - 1) src

/-- `copystring(d, s, len)`. -/
def copystring (len : Nat) (s : Text) : Text := s.take (len - 1)

theorem length_copystring (len : Nat) (s : Text) :
    (copystring len s).length = min (len - 1) s.length := List.length_take

/-- A string that fits is copied as it is. -/
theorem copystring_eq_self {len : Nat} {s : Text} (h : s.length ≤ len - 1) : copystring len s = s :=
  List.take_of_length_le h

/-- A copy into a larger buffer is no longer than `n` only if the string is not. -/
theorem length_copystring_le_iff {len n : Nat} (h : n < len - 1) (s : Text) :
    (copystring len s).length ≤ n ↔ s.length ≤ n := by
  rw [length_copystring]
  omega

/-- The filter keeps within its limit. -/
theorem length_filtertext_le (whitespace forcespace : Bool) {len : Nat} (hlen : 0 < len)
    (src : Text) : (filtertext whitespace forcespace len src).length ≤ len := by
  fun_induction filtertext whitespace forcespace len src with
  | case1 => exact Nat.zero_le _
  | case2 => exact Nat.zero_le _
  | case3 len _ _ ih => exact ih hlen
  | case4 len _ _ _ _ ih => exact ih hlen
  | case5 => exact Nat.le_refl _
  | case6 len c src hcolour hkeep c' hone ih =>
    have hrest := ih (by omega)
    rw [List.length_cons]
    omega

end Text

end Zuckerserv
