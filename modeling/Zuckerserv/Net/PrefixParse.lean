import Mathlib.Data.Int.Basic
import Mathlib.Tactic.NormNum
import Zuckerserv.Net.PrefixText

/-!
# What the parser of prefixes accepts

The parser splits its text at dots and slashes, and reads the pieces with `atoi`. A piece may be
empty, and a number too large for 32 bits is cut off; a dot behind the slash is stored outside of
the array of the tokens.

* `addressPrefixParse` — the parser, with all that can happen.
* `Reads` — the prefix that a text is meant to stand for.
* `right_iff` — when the parser does what it is meant to do.
* `roundTrip` — a prefix that is written is read back.
-/

namespace Zuckerserv

namespace Net

/-! ## The parser -/

/-- What goes wrong: an exception, a store outside of the array, or an assertion that fails. -/
inductive Fault
  | badCast
  | outside
  | assertion
  deriving DecidableEq

/-- `atoi(str)` for a string of digits: an `int`. -/
def atoi32 (str : List Char) : Int := (BitVec.ofNat 32 (atoi str)).toInt

/-- The loop behind the slash, with `current_token` at `tokens[4]`. -/
def scanMask : Nat → List Char → List Char → Except Fault (List Char)
  | _, [], token => .ok token
  | 0, _ :: _, _ => .error .badCast
  | room + 1, c :: str, token =>
    if c = '.' then
      -- `++current_token` goes behind the array, and is stored to if the text goes on
      if str = [] then .error .badCast else .error .outside
    else if '0' ≤ c ∧ c ≤ '9' then scanMask room str (token ++ [c])
    else .error .badCast

/-- The loop in the address, with `current_token` behind the tokens that are complete. -/
def scanTokens : Nat → List Char → List (List Char) → List Char →
    Except Fault (List (List Char) × Option (List Char))
  | _, [], tokens, token => .ok (tokens ++ [token], none)
  | 0, _ :: _, _, _ => .error .badCast
  | room + 1, c :: str, tokens, token =>
    if c = '.' then
      if tokens.length = 3 ∨ str = [] then .error .badCast
      else scanTokens room str (tokens ++ [token]) []
    else if c = '/' then
      if (tokens = [] ∧ token = []) ∨ str = [] then .error .badCast
      else (scanMask room str []).map fun mask => (tokens ++ [token], some mask)
    else if '0' ≤ c ∧ c ≤ '9' then scanTokens room str tokens (token ++ [c])
    else .error .badCast

/-- `x > 255` for an `int` that is converted to `unsigned long`. -/
def over255 (x : Int) : Prop := x < 0 ∨ 255 < x

instance (x : Int) : Decidable (over255 x) := inferInstanceAs (Decidable (_ ∨ _))

/-- The octet with an index; one that is not there is zero. -/
def octetAt (tokens : List (List Char)) (i : Nat) : Int := atoi32 (tokens.getD i ['0'])

/-- `address(prefix)`. -/
def addressOf (a b c d : Nat) : BitVec 32 :=
  BitVec.ofNat 32 (a * 2 ^ 24 + b * 2 ^ 16 + c * 2 ^ 8 + d)

/-- `address_mask(bits)` for an `int` that is converted to `size_t`. -/
def addressMask (bits : Int) : Except Fault Nat :=
  if 0 ≤ bits ∧ bits < 33 then .ok bits.toNat else .error .assertion

/-- The end of `parse`. -/
def readTokens (tokens : List (List Char)) (mask : Option (List Char)) : Except Fault Prefix :=
  if over255 (octetAt tokens 0) ∨ over255 (octetAt tokens 1) ∨ over255 (octetAt tokens 2) ∨
      over255 (octetAt tokens 3) then .error .badCast
  else
    let value := addressOf (octetAt tokens 0).toNat (octetAt tokens 1).toNat
      (octetAt tokens 2).toNat (octetAt tokens 3).toNat
    let maskbits := (mask.map atoi32).getD 32
    if maskbits > 32 ∨ maskbits = 0 then .error .badCast
    else (addressMask maskbits).map fun bits => ⟨value, bits⟩

/-- `address_prefix::parse(str)`. -/
def addressPrefixParse (str : List Char) : Except Fault Prefix :=
  (scanTokens 18 str [] []).bind fun (tokens, mask) => readTokens tokens mask

/-! ## What texts mean -/

/-- Pieces with dots between them. -/
def dotted : List Char → List (List Char) → List Char
  | o, [] => o
  | o, o' :: os => o ++ '.' :: dotted o' os

/-- The slash and the mask, if there is one. -/
def maskText : Option (List Char) → List Char
  | none => []
  | some m => '/' :: m

/-- The text is made of one to four octets and perhaps a mask. The pieces may be empty, but for the
last one behind a dot, a mask, and a single octet before a mask. -/
structure Shaped (str o : List Char) (os : List (List Char)) (mask : Option (List Char)) :
    Prop where
  text : str = dotted o os ++ maskText mask
  count : os.length ≤ 3
  digits : ∀ t ∈ o :: os ++ mask.toList, ∀ c ∈ t, Digit c
  ended : mask = none → os.getLast? ≠ some []
  started : mask.isSome → o :: os ≠ [[]]
  masked : mask ≠ some []

/-- The prefix that a text stands for: one to four octets, none of them empty, with dots between
them, and perhaps a slash and a mask; no longer than 18 characters. -/
def Reads (str : List Char) (p : Prefix) : Prop :=
  ∃ o os mask, Shaped str o os mask ∧ str.length ≤ 18 ∧ (∀ t ∈ o :: os ++ mask.toList, t ≠ []) ∧
    (∀ t ∈ o :: os, atoi t ≤ 255) ∧ (∀ m ∈ mask, 1 ≤ atoi m ∧ atoi m ≤ 32) ∧
    p = ⟨addressOf (atoi o) (atoi (os.getD 0 ['0'])) (atoi (os.getD 1 ['0']))
      (atoi (os.getD 2 ['0'])), (mask.map atoi).getD 32⟩

/-- The parser does what it is meant to do: it returns the prefix of the text, and throws an
exception where there is none. -/
def Right (str : List Char) : Prop :=
  (∃ p, Reads str p ∧ addressPrefixParse str = .ok p) ∨
    ((∀ p, ¬ Reads str p) ∧ addressPrefixParse str = .error .badCast)

/-- There is a dot behind the slash, which is reached, and the text goes on behind it. -/
def DotInMask (str : List Char) : Prop :=
  ∃ o os m rest, str = dotted o os ++ '/' :: (m ++ '.' :: rest) ∧ os.length ≤ 3 ∧
    (∀ t ∈ o :: os ++ [m], ∀ c ∈ t, Digit c) ∧ o :: os ≠ [[]] ∧ rest ≠ [] ∧
    (dotted o os ++ '/' :: m).length < 18

/-- The pieces of a text that has the shape, and whose numbers are small enough as they are read,
are numbers below `2 ^ 31`. -/
def Exact (str : List Char) : Prop :=
  ∀ o os mask, Shaped str o os mask → str.length ≤ 18 →
    (∀ t ∈ o :: os, ¬ over255 (atoi32 t)) → (∀ m ∈ mask, atoi32 m ≤ 32 ∧ atoi32 m ≠ 0) →
    ∀ t ∈ o :: os ++ mask.toList, t ≠ [] ∧ atoi t < 2 ^ 31

/-! ## The loops -/

variable {str o token t : List Char} {os tokens ts : List (List Char)} {mask : Option (List Char)}
  {room : Nat} {p : Prefix}

theorem ok_iff_toOption {α : Type} {e : Except Fault α} {x : α} :
    e = .ok x ↔ e.toOption = some x := by
  cases e with
  | error fault => exact ⟨nofun, nofun⟩
  | ok y =>
    exact ⟨fun h => congrArg some (Except.ok.inj h), fun h => congrArg _ (Option.some.inj h)⟩

/-- The digits that are read do not depend on what goes wrong. -/
theorem toOption_scanMask (room : Nat) (str token : List Char) :
    (scanMask room str token).toOption = parseMask room str token := by
  induction str generalizing room token with
  | nil => cases room <;> rfl
  | cons c str ih =>
    cases room with
    | zero => rfl
    | succ room =>
      rw [scanMask, parseMask]
      by_cases hdot : c = '.'
      · subst hdot
        rw [if_pos rfl, if_neg (show ¬ ('0' ≤ '.' ∧ '.' ≤ '9') by decide)]
        split <;> rfl
      · rw [if_neg hdot]
        split
        · exact ih room (token ++ [c])
        · rfl

theorem toOption_scanTokens (room : Nat) (str : List Char) (tokens : List (List Char))
    (token : List Char) :
    (scanTokens room str tokens token).toOption = parseTokens room str tokens token := by
  induction str generalizing room tokens token with
  | nil => cases room <;> rfl
  | cons c str ih =>
    cases room with
    | zero => rfl
    | succ room =>
      rw [scanTokens, parseTokens]
      split
      · split
        · rfl
        · exact ih room (tokens ++ [token]) []
      · split
        · split
          · rfl
          · rw [← toOption_scanMask]
            cases scanMask room str [] <;> rfl
        · split
          · exact ih room tokens (token ++ [c])
          · rfl

theorem scanTokens_eq_ok {x : List (List Char) × Option (List Char)} :
    scanTokens room str tokens token = .ok x ↔ parseTokens room str tokens token = some x := by
  rw [ok_iff_toOption, toOption_scanTokens]

theorem parseMask_eq_some (h : parseMask room str token = some t) :
    (∀ c ∈ str, Digit c) ∧ t = token ++ str ∧ str.length ≤ room := by
  induction str generalizing room token with
  | nil =>
    have ht : t = token := by
      cases room <;> exact (Option.some.inj h).symm
    exact ⟨fun _ hc => absurd hc List.not_mem_nil, ht.trans (List.append_nil _).symm,
      Nat.zero_le _⟩
  | cons c str ih =>
    cases room with
    | zero => cases h
    | succ room =>
      rw [parseMask] at h
      split at h
      · next hc =>
        obtain ⟨hdigits, ht, hroom⟩ := ih h
        refine ⟨fun c' hc' => ?_, ?_, Nat.succ_le_succ hroom⟩
        · rcases List.mem_cons.mp hc' with rfl | hc'
          · exact hc
          · exact hdigits c' hc'
        · rw [ht, List.append_assoc]
          rfl
      · cases h

/-- What the loop has read when it ends, from any state of it. -/
theorem shaped_of_parseTokens (hlength : tokens.length ≤ 3)
    (h : parseTokens room str tokens token = some (ts, mask)) :
    ∃ o os, ts = tokens ++ (token ++ o) :: os ∧ str = dotted o os ++ maskText mask ∧
      tokens.length + os.length ≤ 3 ∧ (∀ t ∈ o :: os ++ mask.toList, ∀ c ∈ t, Digit c) ∧
      (mask = none → os.getLast? ≠ some []) ∧
      (mask.isSome → os = [] → tokens = [] → token ++ o ≠ []) ∧ mask ≠ some [] ∧
      str.length ≤ room := by
  induction str generalizing room tokens token with
  | nil =>
    have hpair : (tokens ++ [token], none) = (ts, mask) := by
      cases room <;> exact Option.some.inj h
    obtain ⟨rfl, rfl⟩ := Prod.mk.inj hpair
    refine ⟨[], [], by rw [List.append_nil], rfl, hlength, fun t ht c hc => ?_, by simp, by simp,
      by simp, Nat.zero_le _⟩
    rw [List.mem_singleton.mp ht] at hc
    exact absurd hc List.not_mem_nil
  | cons c str ih =>
    cases room with
    | zero => cases h
    | succ room =>
      rw [parseTokens] at h
      split at h
      · next hdot =>
        split at h
        · cases h
        · next hgo =>
          obtain ⟨hthree, hstr⟩ := not_or.mp hgo
          have hlength' : (tokens ++ [token]).length ≤ 3 := by
            rw [List.length_append, List.length_singleton]
            omega
          obtain ⟨o, os, hts, htext, hcount, hdigits, hended, hstarted, hmasked, hroom⟩ :=
            ih hlength' h
          rw [List.length_append, List.length_singleton] at hcount
          refine ⟨[], o :: os, ?_, ?_, ?_, ?_, fun hnone hlast => ?_, by simp, hmasked,
            Nat.succ_le_succ hroom⟩
          · rw [hts, List.append_nil, List.append_assoc]
            rfl
          · rw [htext, hdot]
            rfl
          · rw [List.length_cons]
            omega
          · intro t ht c hc
            rcases List.mem_cons.mp ht with rfl | ht
            · exact absurd hc List.not_mem_nil
            · exact hdigits t ht c hc
          · cases os with
            | nil =>
              cases hnone
              cases Option.some.inj hlast
              exact hstr htext
            | cons o' os => exact hended hnone hlast
      · split at h
        · next hslash =>
          split at h
          · cases h
          · next hgo =>
            obtain ⟨hfirst, hstr⟩ := not_or.mp hgo
            obtain ⟨m, hm, hpair⟩ := Option.map_eq_some_iff.mp h
            obtain ⟨rfl, rfl⟩ := Prod.mk.inj hpair
            obtain ⟨hdigits, hmask, hroom⟩ := parseMask_eq_some hm
            rw [List.nil_append] at hmask
            subst hmask
            refine ⟨[], [], by rw [List.append_nil], by rw [hslash]; rfl, hlength, ?_, by simp, ?_,
              fun heq => hstr (Option.some.inj heq), Nat.succ_le_succ hroom⟩
            · intro t ht c hc
              rcases List.mem_cons.mp ht with rfl | ht
              · exact absurd hc List.not_mem_nil
              · exact hdigits c (List.mem_singleton.mp ht ▸ hc)
            · intro _ _ htokens htoken
              rw [List.append_nil] at htoken
              exact hfirst ⟨htokens, htoken⟩
        · split at h
          · next hc =>
            obtain ⟨o, os, hts, htext, hcount, hdigits, hended, hstarted, hmasked, hroom⟩ :=
              ih hlength h
            refine ⟨c :: o, os, ?_, ?_, hcount, ?_, hended, fun _ _ _ => ?_, hmasked,
              Nat.succ_le_succ hroom⟩
            · rw [hts, List.append_assoc]
              rfl
            · rw [htext]
              cases os <;> rfl
            · intro t ht c' hc'
              rcases List.mem_cons.mp ht with rfl | ht
              · rcases List.mem_cons.mp hc' with rfl | hc'
                · exact hc
                · exact hdigits o List.mem_cons_self c' hc'
              · exact hdigits t (List.mem_cons_of_mem _ ht) c' hc'
            · exact List.append_ne_nil_of_right_ne_nil token (List.cons_ne_nil c o)
          · cases h

/-- A text of the shape is read to its end, from any state of the loop. -/
theorem parseTokens_of_shaped (hroom : str.length ≤ room)
    (htext : str = dotted o os ++ maskText mask) (hcount : tokens.length + os.length ≤ 3)
    (hdigits : ∀ t ∈ o :: os ++ mask.toList, ∀ c ∈ t, Digit c)
    (hended : mask = none → os.getLast? ≠ some [])
    (hstarted : mask.isSome → os = [] → tokens = [] → token ++ o ≠ []) (hmasked : mask ≠ some []) :
    parseTokens room str tokens token = some (tokens ++ (token ++ o) :: os, mask) := by
  induction os generalizing str room o tokens token with
  | nil =>
    have ho := hdigits o List.mem_cons_self
    cases mask with
    | none =>
      have hstr : str = o ++ [] := htext
      rw [hstr, List.append_nil] at hroom
      obtain ⟨left, rfl⟩ := Nat.exists_eq_add_of_le' hroom
      rw [hstr, parseTokens_digits ho]
      cases left <;> rfl
    | some m =>
      have hstr : str = o ++ '/' :: m := htext
      rw [hstr, List.length_append, List.length_cons] at hroom
      obtain ⟨left, rfl⟩ : ∃ left, room = left + 1 + o.length :=
        ⟨room - o.length - 1, by omega⟩
      have hm : ∀ c ∈ m, Digit c := hdigits m (List.mem_append_right _ List.mem_cons_self)
      have hne : m ≠ [] := fun heq => hmasked (heq ▸ rfl)
      have hfirst : ¬ (tokens = [] ∧ token ++ o = []) := fun h => hstarted rfl rfl h.1 h.2
      rw [hstr, parseTokens_digits ho, parseTokens,
        if_neg (show ¬ '/' = '.' by decide), if_pos rfl, if_neg (not_or.mpr ⟨hfirst, hne⟩),
        parseMask_digits hm (by omega)]
      rfl
  | cons o' os ih =>
    have ho := hdigits o List.mem_cons_self
    have hstr : str = o ++ '.' :: (dotted o' os ++ maskText mask) := by
      rw [htext, dotted, List.append_assoc]
      rfl
    rw [hstr, List.length_append, List.length_cons] at hroom
    obtain ⟨left, rfl⟩ : ∃ left, room = left + 1 + o.length := ⟨room - o.length - 1, by omega⟩
    rw [List.length_cons] at hcount
    have hrest : dotted o' os ++ maskText mask ≠ [] := by
      intro hnil
      obtain ⟨hdots, hmask⟩ := List.append_eq_nil_iff.mp hnil
      cases mask with
      | some m => exact absurd hmask (List.cons_ne_nil _ _)
      | none =>
        cases os with
        | nil =>
          have ho' : o' = [] := hdots
          exact hended rfl (ho' ▸ rfl)
        | cons o'' os => exact absurd hdots (by simp [dotted])
    rw [hstr, parseTokens_digits ho, parseTokens_dot (by omega) hrest,
      ih (Nat.le_of_add_le_add_right (b := 1 + o.length) (by omega)) rfl
        (by rw [List.length_append, List.length_singleton]; omega)
        (fun t ht => hdigits t (List.mem_cons_of_mem o ht)) ?_
        (fun _ _ htokens => absurd htokens (by simp)), List.append_assoc]
    · rfl
    · intro hnone hlast
      cases os with
      | nil => cases hlast
      | cons o'' os => exact hended hnone hlast

/-- The texts that are read to their end are those of the shape. -/
theorem scanTokens_eq_ok_iff :
    scanTokens 18 str [] [] = .ok (ts, mask) ↔
      ∃ o os, ts = o :: os ∧ Shaped str o os mask ∧ str.length ≤ 18 := by
  rw [scanTokens_eq_ok]
  constructor
  · intro h
    have hzero : ([] : List (List Char)).length ≤ 3 := Nat.zero_le 3
    obtain ⟨o, os, hts, htext, hcount, hdigits, hended, hstarted, hmasked, hroom⟩ :=
      shaped_of_parseTokens hzero h
    rw [List.length_nil, Nat.zero_add] at hcount
    refine ⟨o, os, hts, ⟨htext, hcount, hdigits, hended, fun hsome heq => ?_, hmasked⟩, hroom⟩
    obtain ⟨ho, hos⟩ := List.cons.inj heq
    exact hstarted hsome hos rfl ho
  · rintro ⟨o, os, rfl, h, hroom⟩
    refine parseTokens_of_shaped hroom h.text ?_ h.digits h.ended (fun hsome hos _ ho => ?_)
      h.masked
    · rw [List.length_nil, Nat.zero_add]
      exact h.count
    · rw [List.nil_append] at ho
      exact h.started hsome (by rw [ho, hos])

/-- A store outside of the array by a dot behind the slash. -/
theorem scanMask_eq_outside :
    scanMask room str token = .error .outside ↔ ∃ m rest, str = m ++ '.' :: rest ∧
      (∀ c ∈ m, Digit c) ∧ rest ≠ [] ∧ m.length < room := by
  induction str generalizing room token with
  | nil =>
    refine iff_of_false ?_ ?_
    · cases room <;> exact nofun
    · rintro ⟨m, rest, h, -⟩
      exact absurd h.symm (by simp)
  | cons c str ih =>
    cases room with
    | zero => exact iff_of_false nofun fun ⟨_, _, _, _, _, h⟩ => absurd h (Nat.not_lt_zero _)
    | succ room =>
      rw [scanMask]
      by_cases hdot : c = '.'
      · subst hdot
        rw [if_pos rfl]
        constructor
        · intro h
          split at h
          · exact absurd h nofun
          · next hstr =>
            exact ⟨[], str, rfl, fun _ hc => absurd hc List.not_mem_nil, hstr, Nat.succ_pos room⟩
        · rintro ⟨m, rest, htext, hdigits, hrest, -⟩
          cases m with
          | nil =>
            rw [(List.cons.inj htext).2, if_neg hrest]
          | cons c m =>
            have hc := hdigits c List.mem_cons_self
            rw [← (List.cons.inj htext).1] at hc
            exact absurd hc (by decide)
      · rw [if_neg hdot]
        by_cases hc : '0' ≤ c ∧ c ≤ '9'
        · rw [if_pos hc, ih]
          constructor
          · rintro ⟨m, rest, rfl, hdigits, hrest, hroom⟩
            refine ⟨c :: m, rest, rfl, fun c' hc' => ?_, hrest, Nat.succ_lt_succ hroom⟩
            rcases List.mem_cons.mp hc' with rfl | hc'
            · exact hc
            · exact hdigits c' hc'
          · rintro ⟨m, rest, htext, hdigits, hrest, hroom⟩
            cases m with
            | nil => exact absurd (List.cons.inj htext).1 hdot
            | cons c' m =>
              exact ⟨m, rest, (List.cons.inj htext).2,
                fun d hd => hdigits d (List.mem_cons_of_mem c' hd), hrest,
                Nat.lt_of_succ_lt_succ hroom⟩
        · rw [if_neg hc]
          refine iff_of_false nofun ?_
          rintro ⟨m, rest, htext, hdigits, -⟩
          cases m with
          | nil => exact hdot (List.cons.inj htext).1
          | cons c' m =>
            have hc' := hdigits c' List.mem_cons_self
            rw [← (List.cons.inj htext).1] at hc'
            exact hc hc'

/-- The digits go into the current token. -/
theorem scanTokens_digits (hdigits : ∀ c ∈ o, Digit c) (str : List Char)
    (tokens : List (List Char)) (token : List Char) :
    scanTokens (room + o.length) (o ++ str) tokens token =
      scanTokens room str tokens (token ++ o) := by
  induction o generalizing token with
  | nil =>
    rw [List.append_nil]
    rfl
  | cons c o ih =>
    have hc : Digit c := hdigits c List.mem_cons_self
    rw [List.cons_append, List.length_cons, ← Nat.add_assoc, scanTokens,
      if_neg (hc.ne (by decide)), if_neg (hc.ne (by decide)), if_pos hc,
      ih fun c' hc' => hdigits c' (List.mem_cons_of_mem c hc'), List.append_assoc]
    rfl

/-- The loop in the address leads to a store outside of the array when the text has a dot behind the
slash. -/
theorem scanTokens_outside (hroom : (dotted o os ++ '/' :: t).length < room) {rest : List Char}
    (htext : str = dotted o os ++ '/' :: (t ++ '.' :: rest))
    (hcount : tokens.length + os.length ≤ 3)
    (hdigits : ∀ t' ∈ o :: os ++ [t], ∀ c ∈ t', Digit c)
    (hstarted : os = [] → tokens = [] → token ++ o ≠ []) (hrest : rest ≠ []) :
    scanTokens room str tokens token = .error .outside := by
  induction os generalizing str room o tokens token with
  | nil =>
    have ho := hdigits o List.mem_cons_self
    have ht : ∀ c ∈ t, Digit c := hdigits t (List.mem_append_right _ List.mem_cons_self)
    rw [dotted, List.length_append, List.length_cons] at hroom
    obtain ⟨left, rfl⟩ : ∃ left, room = left + 1 + o.length := ⟨room - o.length - 1, by omega⟩
    have hgo : ¬ ((tokens = [] ∧ token ++ o = []) ∨ t ++ '.' :: rest = []) :=
      not_or.mpr ⟨fun h => hstarted rfl h.1 h.2, by simp⟩
    rw [htext, dotted, scanTokens_digits ho, scanTokens, if_neg (show ¬ '/' = '.' by decide),
      if_pos rfl, if_neg hgo, scanMask_eq_outside.mpr ⟨t, rest, rfl, ht, hrest, by omega⟩]
    rfl
  | cons o' os ih =>
    have ho := hdigits o List.mem_cons_self
    rw [dotted, List.append_assoc, List.length_append, List.cons_append, List.length_cons] at hroom
    obtain ⟨left, rfl⟩ : ∃ left, room = left + 1 + o.length := ⟨room - o.length - 1, by omega⟩
    rw [List.length_cons] at hcount
    have hgo : ¬ (tokens.length = 3 ∨ dotted o' os ++ '/' :: (t ++ '.' :: rest) = []) :=
      not_or.mpr ⟨by omega, by simp⟩
    rw [htext, dotted, List.append_assoc, scanTokens_digits ho, List.cons_append, scanTokens,
      if_pos rfl, if_neg hgo]
    refine ih (by omega) rfl ?_ (fun t' ht' => hdigits t' (List.mem_cons_of_mem o ht'))
      fun _ htokens => absurd htokens (by simp)
    rw [List.length_append, List.length_singleton]
    omega

/-- Where the loop in the address leads to a store outside of the array. -/
theorem of_scanTokens_outside (hlength : tokens.length ≤ 3)
    (h : scanTokens room str tokens token = .error .outside) :
    ∃ o os m rest, str = dotted o os ++ '/' :: (m ++ '.' :: rest) ∧
      tokens.length + os.length ≤ 3 ∧ (∀ t ∈ o :: os ++ [m], ∀ c ∈ t, Digit c) ∧
      (os = [] → tokens = [] → token ++ o ≠ []) ∧ rest ≠ [] ∧
      (dotted o os ++ '/' :: m).length < room := by
  induction str generalizing room tokens token with
  | nil => cases room <;> exact absurd h nofun
  | cons c str ih =>
    cases room with
    | zero => exact absurd h nofun
    | succ room =>
      rw [scanTokens] at h
      split at h
      · next hdot =>
        split at h
        · exact absurd h nofun
        · next hgo =>
          have hthree := (not_or.mp hgo).1
          have hlength' : (tokens ++ [token]).length ≤ 3 := by
            rw [List.length_append, List.length_singleton]
            omega
          obtain ⟨o, os, m, rest, htext, hcount, hdigits, -, hrest, hroom⟩ := ih hlength' h
          rw [List.length_append, List.length_singleton] at hcount
          refine ⟨[], o :: os, m, rest, ?_, ?_, fun t ht c hc => ?_, nofun, hrest,
            Nat.succ_lt_succ hroom⟩
          · rw [htext, hdot]
            rfl
          · rw [List.length_cons]
            omega
          · rcases List.mem_cons.mp ht with rfl | ht
            · exact absurd hc List.not_mem_nil
            · exact hdigits t ht c hc
      · split at h
        · next hslash =>
          split at h
          · exact absurd h nofun
          · next hgo =>
            have hmask : scanMask room str [] = .error .outside := by
              cases hm : scanMask room str [] with
              | ok m =>
                rw [hm] at h
                exact absurd h nofun
              | error fault =>
                rw [hm] at h
                cases h
                rfl
            obtain ⟨m, rest, htext, hdigits, hrest, hroom⟩ := scanMask_eq_outside.mp hmask
            refine ⟨[], [], m, rest, by rw [htext, hslash]; rfl, hlength, fun t ht c hc => ?_,
              fun _ htokens htoken => ?_, hrest, Nat.succ_lt_succ hroom⟩
            · rcases List.mem_cons.mp ht with rfl | ht
              · exact absurd hc List.not_mem_nil
              · exact hdigits c (List.mem_singleton.mp ht ▸ hc)
            · rw [List.append_nil] at htoken
              exact hgo (.inl ⟨htokens, htoken⟩)
        · split at h
          · next hc =>
            obtain ⟨o, os, m, rest, htext, hcount, hdigits, -, hrest, hroom⟩ := ih hlength h
            refine ⟨c :: o, os, m, rest, ?_, hcount, fun t ht c' hc' => ?_, fun _ _ => ?_, hrest,
              ?_⟩
            · rw [htext]
              cases os <;> rfl
            · rcases List.mem_cons.mp ht with rfl | ht
              · rcases List.mem_cons.mp hc' with rfl | hc'
                · exact hc
                · exact hdigits o List.mem_cons_self c' hc'
              · exact hdigits t (List.mem_cons_of_mem _ ht) c' hc'
            · exact List.append_ne_nil_of_right_ne_nil token (List.cons_ne_nil c o)
            · cases os <;> exact Nat.succ_lt_succ hroom
          · exact absurd h nofun

theorem scanTokens_eq_outside_iff :
    scanTokens 18 str [] [] = .error .outside ↔ DotInMask str := by
  constructor
  · intro h
    have hzero : ([] : List (List Char)).length ≤ 3 := Nat.zero_le 3
    obtain ⟨o, os, m, rest, htext, hcount, hdigits, hstarted, hrest, hroom⟩ :=
      of_scanTokens_outside hzero h
    rw [List.length_nil, Nat.zero_add] at hcount
    refine ⟨o, os, m, rest, htext, hcount, hdigits, fun heq => ?_, hrest, hroom⟩
    obtain ⟨ho, hos⟩ := List.cons.inj heq
    exact hstarted hos rfl ho
  · rintro ⟨o, os, m, rest, htext, hcount, hdigits, hstarted, hrest, hroom⟩
    refine scanTokens_outside hroom htext ?_ hdigits (fun hos _ ho => ?_) hrest
    · rw [List.length_nil, Nat.zero_add]
      exact hcount
    · rw [List.nil_append] at ho
      exact hstarted (by rw [ho, hos])

/-- The loops end, throw an exception or store outside of the array. -/
theorem scanMask_ne_assertion : scanMask room str token ≠ .error .assertion := by
  induction str generalizing room token with
  | nil => cases room <;> exact nofun
  | cons c str ih =>
    cases room with
    | zero => exact nofun
    | succ room =>
      rw [scanMask]
      split
      · split <;> exact nofun
      · split
        · exact ih
        · exact nofun

theorem scanTokens_ne_assertion : scanTokens room str tokens token ≠ .error .assertion := by
  induction str generalizing room tokens token with
  | nil => cases room <;> exact nofun
  | cons c str ih =>
    cases room with
    | zero => exact nofun
    | succ room =>
      rw [scanTokens]
      split
      · split
        · exact nofun
        · exact ih
      · split
        · split
          · exact nofun
          · intro h
            cases hm : scanMask room str [] with
            | ok m =>
              rw [hm] at h
              exact absurd h nofun
            | error fault =>
              rw [hm] at h
              cases h
              exact scanMask_ne_assertion hm
        · split
          · exact ih
          · exact nofun

/-! ## The numbers -/

theorem atoi32_of_lt (h : atoi t < 2 ^ 31) : atoi32 t = atoi t := by
  norm_num at h
  have hmod : atoi t % 2 ^ 32 = atoi t := Nat.mod_eq_of_lt (by norm_num; omega)
  rw [atoi32, BitVec.toInt_eq_toNat_bmod, BitVec.toNat_ofNat, hmod, Int.bmod_eq_of_le_mul_two]
  · norm_num
    omega
  · norm_num
    omega

theorem atoi32_zero : atoi32 ['0'] = 0 := by decide

attribute [local irreducible] atoi32

/-- The numbers of the pieces are in the ranges that are checked. -/
def InRange (ts : List (List Char)) (mask : Option (List Char)) : Prop :=
  (∀ t ∈ ts, ¬ over255 (atoi32 t)) ∧ ∀ m ∈ mask, atoi32 m ≤ 32 ∧ atoi32 m ≠ 0

theorem not_over255_zero : ¬ over255 (atoi32 ['0']) := by
  rw [atoi32_zero]
  decide

/-- The octets that are checked are those of the text. -/
theorem over255_iff (hcount : os.length ≤ 3) :
    (over255 (octetAt (o :: os) 0) ∨ over255 (octetAt (o :: os) 1) ∨
      over255 (octetAt (o :: os) 2) ∨ over255 (octetAt (o :: os) 3)) ↔
        ∃ t ∈ o :: os, over255 (atoi32 t) := by
  constructor
  · have hof (i : Nat) (h : over255 (octetAt (o :: os) i)) : ∃ t ∈ o :: os, over255 (atoi32 t) := by
      rw [octetAt, List.getD_eq_getElem?_getD] at h
      cases hi : (o :: os)[i]? with
      | none =>
        rw [hi] at h
        exact absurd h not_over255_zero
      | some t =>
        rw [hi] at h
        exact ⟨t, List.mem_of_getElem? hi, h⟩
    rintro (h | h | h | h)
    · exact hof 0 h
    · exact hof 1 h
    · exact hof 2 h
    · exact hof 3 h
  · rintro ⟨t, ht, hover⟩
    obtain ⟨i, hi⟩ := List.mem_iff_getElem?.mp ht
    have hlt : i < (o :: os).length := (List.getElem?_eq_some_iff.mp hi).1
    have hoctet : over255 (octetAt (o :: os) i) := by
      rw [octetAt, List.getD_eq_getElem?_getD, hi]
      exact hover
    rw [List.length_cons] at hlt
    rcases (by omega : i = 0 ∨ i = 1 ∨ i = 2 ∨ i = 3) with rfl | rfl | rfl | rfl
    · exact .inl hoctet
    · exact .inr (.inl hoctet)
    · exact .inr (.inr (.inl hoctet))
    · exact .inr (.inr (.inr hoctet))

/-- What is not in range is an exception. -/
theorem readTokens_of_not_inRange (hcount : os.length ≤ 3) (h : ¬ InRange (o :: os) mask) :
    readTokens (o :: os) mask = .error .badCast := by
  unfold readTokens
  split
  · rfl
  · next hover =>
    rw [over255_iff hcount] at hover
    dsimp only
    rw [if_pos]
    by_contra hmask
    refine h ⟨fun t ht ho => hover ⟨t, ht, ho⟩, fun m hm => ?_⟩
    cases hm
    exact ⟨Int.not_lt.mp (not_or.mp hmask).1, (not_or.mp hmask).2⟩

theorem readTokens_of_inRange (hcount : os.length ≤ 3) (h : InRange (o :: os) mask) :
    readTokens (o :: os) mask = (addressMask ((mask.map atoi32).getD 32)).map fun bits =>
      ⟨addressOf (octetAt (o :: os) 0).toNat (octetAt (o :: os) 1).toNat
        (octetAt (o :: os) 2).toNat (octetAt (o :: os) 3).toNat, bits⟩ := by
  have hover : ¬ ∃ t ∈ o :: os, over255 (atoi32 t) := fun ⟨t, ht, ho⟩ => h.1 t ht ho
  unfold readTokens
  rw [if_neg (mt (over255_iff hcount).mp hover)]
  dsimp only
  rw [if_neg]
  cases mask with
  | none => decide
  | some m => exact not_or.mpr ⟨Int.not_lt.mpr (h.2 m rfl).1, (h.2 m rfl).2⟩

/-- What is in range is no exception. -/
theorem readTokens_ne_badCast (hcount : os.length ≤ 3) (h : InRange (o :: os) mask) :
    readTokens (o :: os) mask ≠ .error .badCast := by
  rw [readTokens_of_inRange hcount h, addressMask]
  split <;> exact nofun

/-- An octet that is read. -/
theorem toNat_octetAt (h : ∀ t ∈ ts, atoi t < 2 ^ 31) (i : Nat) :
    (octetAt ts i).toNat = atoi (ts.getD i ['0']) := by
  have ht : atoi (ts.getD i ['0']) < 2 ^ 31 := by
    rw [List.getD_eq_getElem?_getD]
    cases hi : ts[i]? with
    | none => decide
    | some t => exact h t (List.mem_of_getElem? hi)
  rw [octetAt, atoi32_of_lt ht, Int.toNat_natCast]

/-- The prefix of numbers that are in range. -/
theorem readTokens_eq_ok (hcount : os.length ≤ 3) (h : InRange (o :: os) mask)
    (hsmall : ∀ t ∈ o :: os ++ mask.toList, atoi t < 2 ^ 31) :
    readTokens (o :: os) mask = .ok ⟨addressOf (atoi o) (atoi (os.getD 0 ['0']))
      (atoi (os.getD 1 ['0'])) (atoi (os.getD 2 ['0'])), (mask.map atoi).getD 32⟩ := by
  have hoctet (i : Nat) : (octetAt (o :: os) i).toNat = atoi ((o :: os).getD i ['0']) :=
    toNat_octetAt (fun t ht => hsmall t (List.mem_append_left _ ht)) i
  have hmask : addressMask ((mask.map atoi32).getD 32) = .ok ((mask.map atoi).getD 32) := by
    cases mask with
    | none => rfl
    | some m =>
      have hm := atoi32_of_lt (hsmall m (List.mem_append_right _ List.mem_cons_self))
      have hrange := (h.2 m rfl).1
      change addressMask (atoi32 m) = .ok (atoi m)
      rw [hm] at hrange ⊢
      rw [addressMask, if_pos ⟨Int.natCast_nonneg _, by omega⟩, Int.toNat_natCast]
  rw [readTokens_of_inRange hcount h, hmask, hoctet, hoctet, hoctet, hoctet]
  rfl

/-! ## What is accepted -/

theorem Shaped.scanTokens_eq (h : Shaped str o os mask) (hlength : str.length ≤ 18) :
    scanTokens 18 str [] [] = .ok (o :: os, mask) :=
  scanTokens_eq_ok_iff.mpr ⟨o, os, rfl, h, hlength⟩

/-- The pieces of a text. -/
theorem Shaped.unique {o' : List Char} {os' : List (List Char)} {mask' : Option (List Char)}
    (h : Shaped str o os mask) (h' : Shaped str o' os' mask') (hlength : str.length ≤ 18) :
    o' = o ∧ os' = os ∧ mask' = mask := by
  have heq := (h'.scanTokens_eq hlength).symm.trans (h.scanTokens_eq hlength)
  obtain ⟨htokens, hmask⟩ := Prod.mk.inj (Except.ok.inj heq)
  exact ⟨(List.cons.inj htokens).1, (List.cons.inj htokens).2, hmask⟩

/-- The numbers of a text that stands for a prefix are read as they are. -/
theorem small_of_reads (hoctets : ∀ t ∈ o :: os, atoi t ≤ 255)
    (hmask : ∀ m ∈ mask, 1 ≤ atoi m ∧ atoi m ≤ 32) :
    InRange (o :: os) mask ∧ ∀ t ∈ o :: os ++ mask.toList, atoi t < 2 ^ 31 := by
  refine ⟨⟨fun t ht => ?_, fun m hm => ?_⟩, fun t ht => ?_⟩
  · have hle := hoctets t ht
    rw [atoi32_of_lt (by omega)]
    exact not_or.mpr ⟨Int.not_lt.mpr (Int.natCast_nonneg _), by omega⟩
  · obtain ⟨hpos, hle⟩ := hmask m hm
    rw [atoi32_of_lt (by omega)]
    exact ⟨by omega, by omega⟩
  · rcases List.mem_append.mp ht with ht | ht
    · have := hoctets t ht
      omega
    · have := (hmask t (Option.mem_toList.mp ht)).2
      omega

/-- A text that stands for a prefix is read as that prefix. -/
theorem Reads.parse_eq (h : Reads str p) : addressPrefixParse str = .ok p := by
  obtain ⟨o, os, mask, hshape, hlength, -, hoctets, hmask, rfl⟩ := h
  obtain ⟨hrange, hsmall⟩ := small_of_reads hoctets hmask
  rw [addressPrefixParse, hshape.scanTokens_eq hlength]
  exact readTokens_eq_ok hshape.count hrange hsmall

/-- The parser does what it is meant to do if and only if no dot stands behind the slash and the
pieces whose numbers are in range as they are read are not empty and below `2 ^ 31`. -/
theorem right_iff (str : List Char) : Right str ↔ ¬ DotInMask str ∧ Exact str := by
  cases hscan : scanTokens 18 str [] [] with
  | error fault =>
    have hparse : addressPrefixParse str = .error fault := by
      rw [addressPrefixParse, hscan]
      rfl
    have hshape (o : List Char) (os : List (List Char)) (mask : Option (List Char))
        (h : Shaped str o os mask) : ¬ str.length ≤ 18 := fun hlength =>
      absurd ((h.scanTokens_eq hlength).symm.trans hscan) nofun
    cases fault with
    | assertion => exact absurd hscan scanTokens_ne_assertion
    | outside =>
      refine iff_of_false ?_ fun h => h.1 (scanTokens_eq_outside_iff.mp hscan)
      rintro (⟨p, -, hp⟩ | ⟨-, hbad⟩)
      · exact absurd (hparse.symm.trans hp) nofun
      · exact absurd (hparse.symm.trans hbad) nofun
    | badCast =>
      refine iff_of_true (.inr ⟨fun p hp => ?_, hparse⟩) ⟨fun hdot => ?_, ?_⟩
      · exact absurd (hparse.symm.trans hp.parse_eq) nofun
      · exact absurd (hscan.symm.trans (scanTokens_eq_outside_iff.mpr hdot)) nofun
      · exact fun o os mask h hlength => absurd hlength (hshape o os mask h)
  | ok result =>
    obtain ⟨ts, mask⟩ := result
    obtain ⟨o, os, rfl, hshape, hlength⟩ := scanTokens_eq_ok_iff.mp hscan
    have hparse : addressPrefixParse str = readTokens (o :: os) mask := by
      rw [addressPrefixParse, hscan]
      rfl
    have hdot : ¬ DotInMask str := fun h =>
      absurd (hscan.symm.trans (scanTokens_eq_outside_iff.mpr h)) nofun
    by_cases hrange : InRange (o :: os) mask
    · by_cases hexact : ∀ t ∈ o :: os ++ mask.toList, t ≠ [] ∧ atoi t < 2 ^ 31
      · have hsmall (t : List Char) (ht : t ∈ o :: os ++ mask.toList) := (hexact t ht).2
        have hread := readTokens_eq_ok hshape.count hrange hsmall
        refine iff_of_true (.inl ⟨_, ⟨o, os, mask, hshape, hlength, fun t ht => (hexact t ht).1,
          fun t ht => ?_, fun m hm => ?_, rfl⟩, hparse.trans hread⟩) ⟨hdot, ?_⟩
        · have hover := hrange.1 t ht
          rw [atoi32_of_lt (hsmall t (List.mem_append_left _ ht))] at hover
          have := Int.not_lt.mp (not_or.mp hover).2
          omega
        · have hm' := hrange.2 m hm
          rw [atoi32_of_lt (hsmall m (List.mem_append_right _ (Option.mem_toList.mpr hm)))] at hm'
          omega
        · intro o' os' mask' h' hlength' _ _
          obtain ⟨rfl, rfl, rfl⟩ := hshape.unique h' hlength
          exact hexact
      · refine iff_of_false ?_ fun h => hexact (h.2 o os mask hshape hlength hrange.1 hrange.2)
        rintro (⟨p, ⟨o', os', mask', h', -, hne, hoctets, hmask, -⟩, -⟩ | ⟨-, hbad⟩)
        · obtain ⟨rfl, rfl, rfl⟩ := hshape.unique h' hlength
          have hsmall := (small_of_reads hoctets hmask).2
          exact hexact fun t ht => ⟨hne t ht, hsmall t ht⟩
        · exact readTokens_ne_badCast hshape.count hrange (hparse.symm.trans hbad)
    · have hbad := hparse.trans (readTokens_of_not_inRange hshape.count hrange)
      refine iff_of_true (.inr ⟨fun p hp => ?_, hbad⟩) ⟨hdot, ?_⟩
      · exact absurd (hbad.symm.trans hp.parse_eq) nofun
      · intro o' os' mask' h' hlength' hoctets hmask
        obtain ⟨rfl, rfl, rfl⟩ := hshape.unique h' hlength
        exact absurd ⟨hoctets, hmask⟩ hrange

/-- A dot behind the slash is stored outside of the array of the tokens. -/
theorem dot_behind_slash : addressPrefixParse ['1', '/', '2', '.', '3'] = .error .outside ∧
    ¬ Right ['1', '/', '2', '.', '3'] := by
  have hparse : addressPrefixParse ['1', '/', '2', '.', '3'] = .error .outside := by decide
  refine ⟨hparse, fun h => ?_⟩
  rcases h with ⟨p, -, hp⟩ | ⟨-, hbad⟩
  · exact absurd (hparse.symm.trans hp) nofun
  · exact absurd (hparse.symm.trans hbad) nofun

/-! ## What is written -/

section Written

variable {mask : Nat}

/-- The pieces of the text of a prefix. -/
def writtenOctets (value : BitVec 32) : List (List Char) :=
  [decimal (octet value 16), decimal (octet value 8), decimal (octet value 0)]

def writtenMask (mask : Nat) : Option (List Char) :=
  if mask < 32 then some (decimal mask) else none

theorem toString_eq (value : BitVec 32) (mask : Nat) : Prefix.toString ⟨value, mask⟩ =
    dotted (decimal (octet value 24)) (writtenOctets value) ++ maskText (writtenMask mask) := by
  have htext : maskText (writtenMask mask) = if mask < 32 then '/' :: decimal mask else [] := by
    rw [writtenMask]
    split <;> rfl
  rw [htext]
  rfl

theorem mem_writtenMask {m : List Char} (h : m ∈ writtenMask mask) :
    mask < 32 ∧ m = decimal mask := by
  rw [writtenMask] at h
  split at h
  · next hlt => exact ⟨hlt, (Option.mem_some.mp h).symm⟩
  · exact absurd h nofun

/-- Every piece is a number. -/
theorem exists_decimal {value : BitVec 32} {t : List Char}
    (h : t ∈ decimal (octet value 24) :: writtenOctets value ++ (writtenMask mask).toList) :
    ∃ k, t = decimal k := by
  rcases List.mem_append.mp h with ht | ht
  · rw [writtenOctets, List.mem_cons, List.mem_cons, List.mem_cons, List.mem_singleton] at ht
    rcases ht with rfl | rfl | rfl | rfl <;> exact ⟨_, rfl⟩
  · exact ⟨mask, (mem_writtenMask (Option.mem_toList.mp ht)).2⟩

theorem shaped_toString (value : BitVec 32) (mask : Nat) :
    Shaped (Prefix.toString ⟨value, mask⟩) (decimal (octet value 24)) (writtenOctets value)
      (writtenMask mask) where
  text := toString_eq value mask
  count := Nat.le_refl 3
  digits := by
    intro t ht
    obtain ⟨k, rfl⟩ := exists_decimal ht
    exact digit_decimal k
  ended := fun _ h => decimal_ne_nil _ (Option.some.inj h)
  started := fun _ h => absurd (List.cons.inj h).2 nofun
  masked := fun h => decimal_ne_nil mask (mem_writtenMask h).2.symm

/-- The longest texts leave one character for the terminator. -/
theorem length_toString_le (value : BitVec 32) (hmask : mask ≤ 32) :
    (Prefix.toString ⟨value, mask⟩).length ≤ 18 := by
  have hoctet (k : Nat) : (decimal (octet value k)).length ≤ 3 :=
    length_decimal_le (by have := octet_lt value k; omega) (by decide)
  have hbits : (maskText (writtenMask mask)).length ≤ 3 := by
    rw [writtenMask]
    split
    · next hlt => exact Nat.succ_le_succ (length_decimal_le (by omega) (by decide))
    · exact Nat.zero_le 3
  have h₁ := hoctet 24
  have h₂ := hoctet 16
  have h₃ := hoctet 8
  have h₄ := hoctet 0
  simp only [toString_eq, dotted, writtenOctets, List.length_append, List.length_cons]
  omega

/-- The text of a prefix stands for that prefix. -/
theorem reads_toString (value : BitVec 32) (hpos : 0 < mask) (hmask : mask ≤ 32) :
    Reads (Prefix.toString ⟨value, mask⟩) ⟨value, mask⟩ := by
  refine ⟨_, _, _, shaped_toString value mask, length_toString_le value hmask, ?_, ?_, ?_, ?_⟩
  · intro t ht
    obtain ⟨k, rfl⟩ := exists_decimal ht
    exact decimal_ne_nil k
  · intro t ht
    rw [writtenOctets, List.mem_cons, List.mem_cons, List.mem_cons, List.mem_singleton] at ht
    rcases ht with rfl | rfl | rfl | rfl <;> rw [atoi_decimal] <;>
      exact Nat.le_of_lt_succ (octet_lt value _)
  · intro m hm
    obtain ⟨hlt, rfl⟩ := mem_writtenMask hm
    rw [atoi_decimal]
    exact ⟨hpos, Nat.le_of_lt hlt⟩
  · have hbits : ((writtenMask mask).map atoi).getD 32 = mask := by
      rw [writtenMask]
      split
      · exact atoi_decimal mask
      · exact Nat.le_antisymm (Nat.not_lt.mp ‹_›) hmask
    have hvalue : addressOf (octet value 24) (octet value 16) (octet value 8) (octet value 0) =
        value := ofNat_octets value
    rw [hbits]
    simp only [writtenOctets, List.getD_cons_zero, List.getD_cons_succ, atoi_decimal, hvalue]

/-- A prefix that is written is read back as it is. -/
theorem addressPrefixParse_toString {p : Prefix} (hpos : 0 < p.mask) (hmask : p.mask ≤ 32) :
    addressPrefixParse p.toString = .ok p := (reads_toString p.value hpos hmask).parse_eq

/-- Every prefix that is written fits the buffers of 19 characters with its terminator, and is read
back as it is; so the text determines the prefix. -/
theorem roundTrip (value : BitVec 32) (mask : Nat) (hpos : 0 < mask) (hmask : mask ≤ 32) :
    addressPrefixParse (Prefix.toString ⟨value, mask⟩) = .ok ⟨value, mask⟩ ∧
      (Prefix.toString ⟨value, mask⟩).length + 1 ≤ 19 ∧
      ∀ value' mask', 0 < mask' → mask' ≤ 32 →
        Prefix.toString ⟨value, mask⟩ = Prefix.toString ⟨value', mask'⟩ →
          value = value' ∧ mask = mask' := by
  have hparse : addressPrefixParse (Prefix.toString ⟨value, mask⟩) = .ok ⟨value, mask⟩ :=
    addressPrefixParse_toString hpos hmask
  refine ⟨hparse, Nat.succ_le_succ (length_toString_le value hmask), ?_⟩
  intro value' mask' hpos' hmask' htext
  have hparse' : addressPrefixParse (Prefix.toString ⟨value', mask'⟩) = .ok ⟨value', mask'⟩ :=
    addressPrefixParse_toString hpos' hmask'
  rw [← htext] at hparse'
  exact Prefix.mk.inj (Except.ok.inj (hparse.symm.trans hparse'))

theorem roundTrip_full :
    addressPrefixParse (Prefix.toString ⟨0xfefefefe, 31⟩) = .ok ⟨0xfefefefe, 31⟩ :=
  (roundTrip 0xfefefefe 31 (by decide) (by decide)).1

end Written

end Net

end Zuckerserv
