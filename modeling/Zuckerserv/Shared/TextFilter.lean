import Mathlib.Logic.Function.Basic
import Zuckerserv.Shared.Text

/-!
# The filter in memory

`filtertext` is called with one buffer as source and destination. It writes what it keeps while it
reads, and the place where it writes never overtakes the place where it reads.

* `filtertextAt` — the code, on memory.
* `IsString` — a string with its zero at an address.
* `Kept` — the characters that the filter leaves.
* `filtertext_eq_self` — a string of such characters stays as it is.
* `filtertextAt_eq` — in memory the filter does what it does to strings.
* `filtertext_spec` — the filter is sound and idempotent, and works in place.
-/

namespace Zuckerserv

namespace Text

/-! ## The code -/

/-- The loop of `filtertext(dst, src, whitespace, forcespace, len)` for at most `fuel` rounds;
`text` is the memory. -/
def filtertextAt (whitespace forcespace : Bool) :
    Nat → (Nat → UInt8) → Nat → Nat → Nat → Option (Nat → UInt8)
  | 0, _, _, _, _ => none
  | fuel + 1, text, dst, src, len =>
    let c := text src
    if c = 0 then some (Function.update text dst 0)
    else if c = 12 then
      -- A colour is two characters.
      if text (src + 1) = 0 then some (Function.update text dst 0)
      else filtertextAt whitespace forcespace fuel text dst (src + 2) len
    else if ¬ iscubeprint c ∧ (¬ iscubespace c ∨ ¬ whitespace) then
      filtertextAt whitespace forcespace fuel text dst (src + 1) len
    else
      let c := if ¬ iscubeprint c ∧ forcespace then 32 else c
      let text := Function.update text dst c
      if len = 1 then some (Function.update text (dst + 1) 0)
      else filtertextAt whitespace forcespace fuel text (dst + 1) (src + 1) (len - 1)

/-! ## What the filter leaves -/

/-- The characters that the filter leaves: printable ones, and spaces if they are allowed. -/
def Kept (whitespace forcespace : Bool) (c : UInt8) : Prop :=
  c ≠ 0 ∧ c ≠ 12 ∧ (iscubeprint c = true ∨
    (whitespace = true ∧ iscubespace c = true ∧ (forcespace = true → c = 32)))

theorem ne_zero_of_iscubeprint {c : UInt8} (h : iscubeprint c = true) : c ≠ 0 := by
  rintro rfl
  revert h
  decide

theorem ne_zero_of_iscubespace {c : UInt8} (h : iscubespace c = true) : c ≠ 0 := by
  rintro rfl
  revert h
  decide

/-- What the filter makes of a character that it does not skip. -/
theorem kept_of_not_skipped {whitespace forcespace : Bool} {c : UInt8} (hcolour : c ≠ 12)
    (hkeep : ¬ (¬ iscubeprint c ∧ (¬ iscubespace c ∨ ¬ whitespace))) :
    Kept whitespace forcespace (if ¬ iscubeprint c ∧ forcespace then 32 else c) := by
  by_cases hprint : iscubeprint c = true
  · rw [if_neg fun h => h.1 hprint]
    exact ⟨ne_zero_of_iscubeprint hprint, hcolour, .inl hprint⟩
  · have hspace : iscubespace c = true ∧ whitespace = true := by
      by_contra hno
      refine hkeep ⟨hprint, ?_⟩
      rwa [← not_and_or]
    by_cases hforce : forcespace = true
    · rw [if_pos ⟨hprint, hforce⟩]
      exact ⟨by decide, by decide, .inr ⟨hspace.2, by decide, fun _ => rfl⟩⟩
    · rw [if_neg fun h => hforce h.2]
      exact ⟨ne_zero_of_iscubespace hspace.1, hcolour,
        .inr ⟨hspace.2, hspace.1, fun h => absurd h hforce⟩⟩

theorem kept_of_mem_filtertext {whitespace forcespace : Bool} {len : Nat} {src : Text} {c : UInt8}
    (h : c ∈ filtertext whitespace forcespace len src) : Kept whitespace forcespace c := by
  fun_induction filtertext whitespace forcespace len src with
  | case1 => cases h
  | case2 => cases h
  | case3 _ _ _ ih => exact ih h
  | case4 _ _ _ _ _ ih => exact ih h
  | case5 d src hcolour hkeep e =>
    rw [List.mem_singleton.mp h]
    exact kept_of_not_skipped hcolour hkeep
  | case6 len d src hcolour hkeep e hone ih =>
    rcases List.mem_cons.mp h with rfl | h
    · exact kept_of_not_skipped hcolour hkeep
    · exact ih h

/-- A character that may stay is kept as it is. -/
theorem Kept.not_skipped {whitespace forcespace : Bool} {c : UInt8}
    (h : Kept whitespace forcespace c) :
    ¬ (¬ iscubeprint c ∧ (¬ iscubespace c ∨ ¬ whitespace)) ∧
      (if ¬ iscubeprint c ∧ forcespace then 32 else c) = c := by
  rcases h.2.2 with hprint | ⟨hwhite, hspace, hforce⟩
  · exact ⟨fun h => h.1 hprint, if_neg fun h => h.1 hprint⟩
  · refine ⟨fun h => h.2.elim (fun h => h hspace) fun h => h hwhite, ?_⟩
    by_cases hf : forcespace = true
    · rw [hforce hf, ite_self]
    · rw [if_neg fun h => hf h.2]

/-- A string of characters that may stay is left as it is, if it is not too long. -/
theorem filtertext_eq_self {whitespace forcespace : Bool} {len : Nat} {s : Text}
    (h : ∀ c ∈ s, Kept whitespace forcespace c) (hlen : s.length ≤ len) :
    filtertext whitespace forcespace len s = s := by
  induction s generalizing len with
  | nil => rw [filtertext]
  | cons c s ih =>
    have hc := h c List.mem_cons_self
    have hs : ∀ d ∈ s, Kept whitespace forcespace d := fun d hd => h d (List.mem_cons_of_mem _ hd)
    rw [List.length_cons] at hlen
    rw [filtertext.eq_def]
    dsimp only
    rw [if_neg hc.2.1, if_neg hc.not_skipped.1, hc.not_skipped.2]
    split
    · rename_i hone
      rw [List.length_eq_zero_iff.mp (by omega : s.length = 0)]
    · rw [ih hs (by omega)]

/-! ## In memory -/

/-- A string with its zero at an address. -/
def IsString (text : Nat → UInt8) : Nat → Text → Prop
  | a, [] => text a = 0
  | a, c :: s => (c ≠ 0 ∧ text a = c) ∧ IsString text (a + 1) s

/-- A string stays when memory around it changes. -/
theorem IsString.congr {text text' : Nat → UInt8} {a : Nat} {s : Text} (h : IsString text a s)
    (hsame : ∀ b, a ≤ b → b ≤ a + s.length → text' b = text b) : IsString text' a s := by
  induction s generalizing a with
  | nil => exact (hsame a (Nat.le_refl _) (Nat.le_refl _)).trans h
  | cons c s ih =>
    rw [List.length_cons] at hsame
    exact ⟨⟨h.1.1, (hsame a (Nat.le_refl _) (by omega)).trans h.1.2⟩,
      ih h.2 fun b hab hb => hsame b (by omega) (by omega)⟩

theorem IsString.update {text : Nat → UInt8} {a b : Nat} {s : Text} (h : IsString text a s)
    (hb : b < a ∨ a + s.length < b) (c : UInt8) : IsString (Function.update text b c) a s :=
  h.congr fun d _ _ => Function.update_of_ne (by omega) c text

/-- What memory holds after the filter: a string with its zero, and all else as before. -/
def Leaves (text text' : Nat → UInt8) (dst : Nat) (r : Text) : Prop :=
  IsString text' dst r ∧ ∀ a, a < dst ∨ dst + r.length < a → text' a = text a

theorem leaves_nil (text : Nat → UInt8) (dst : Nat) :
    Leaves text (Function.update text dst 0) dst [] := by
  refine ⟨Function.update_self .., fun a ha => Function.update_of_ne ?_ 0 text⟩
  rw [List.length_nil] at ha
  omega

/-- A character is written, and a string behind it. -/
theorem Leaves.cons {text text' : Nat → UInt8} {dst : Nat} {c : UInt8} {r : Text} (hc : c ≠ 0)
    (h : Leaves (Function.update text dst c) text' (dst + 1) r) :
    Leaves text text' dst (c :: r) := by
  obtain ⟨hstring, hframe⟩ := h
  refine ⟨⟨⟨hc, ?_⟩, hstring⟩, fun a ha => ?_⟩
  · rw [hframe dst (.inl (Nat.lt_succ_self _)), Function.update_self]
  · rw [List.length_cons] at ha
    rw [hframe a (by omega), Function.update_of_ne (by omega)]

/-- In memory the filter does what it does to strings, if the place where it writes is not ahead of
the place where it reads, or behind all that it reads. -/
theorem filtertextAt_eq (whitespace forcespace : Bool) {len : Nat} {s : Text}
    {text : Nat → UInt8} {dst src fuel : Nat} (hs : IsString text src s)
    (hplace : dst ≤ src ∨ src + s.length < dst) (hfuel : s.length < fuel) :
    ∃ text', filtertextAt whitespace forcespace fuel text dst src len = some text' ∧
      Leaves text text' dst (filtertext whitespace forcespace len s) := by
  obtain ⟨fuel, rfl⟩ : ∃ f, fuel = f + 1 := ⟨fuel - 1, by omega⟩
  fun_induction filtertext whitespace forcespace len s generalizing text dst src fuel with
  | case1 =>
    rw [filtertextAt]
    exact ⟨_, if_pos hs, leaves_nil text dst⟩
  | case2 len =>
    obtain ⟨⟨-, hc⟩, hend⟩ := hs
    have hend : text (src + 1) = 0 := hend
    rw [filtertextAt, hc]
    exact ⟨_, if_pos hend, leaves_nil text dst⟩
  | case3 len d s ih =>
    obtain ⟨⟨-, hc⟩, ⟨hd0, hd⟩, hs⟩ := hs
    simp only [List.length_cons] at hplace hfuel
    obtain ⟨fuel, rfl⟩ : ∃ f, fuel = f + 1 := ⟨fuel - 1, by omega⟩
    rw [filtertextAt, hc]
    dsimp only
    rw [if_neg (by decide), if_pos rfl, hd, if_neg hd0]
    have hs : IsString text (src + 2) s := hs
    exact ih hs (by omega) fuel (by omega)
  | case4 len c s hcolour hskip ih =>
    obtain ⟨⟨hc0, hc⟩, hs⟩ := hs
    rw [List.length_cons] at hplace hfuel
    obtain ⟨fuel, rfl⟩ : ∃ f, fuel = f + 1 := ⟨fuel - 1, by omega⟩
    rw [filtertextAt, hc]
    dsimp only
    rw [if_neg hc0, if_neg hcolour, if_pos hskip]
    have hs : IsString text (src + 1) s := hs
    exact ih hs (by omega) fuel (by omega)
  | case5 c s hcolour hkeep =>
    obtain ⟨⟨hc0, hc⟩, hs⟩ := hs
    rw [filtertextAt, hc]
    dsimp only
    rw [if_neg hc0, if_neg hcolour, if_neg hkeep, if_pos rfl]
    exact ⟨_, rfl, (leaves_nil _ _).cons (kept_of_not_skipped hcolour hkeep).1⟩
  | case6 len c s hcolour hkeep e hone =>
    rename_i ih
    obtain ⟨⟨hc0, hc⟩, hs⟩ := hs
    have hs : IsString text (src + 1) s := hs
    rw [List.length_cons] at hplace hfuel
    obtain ⟨fuel, rfl⟩ : ∃ f, fuel = f + 1 := ⟨fuel - 1, by omega⟩
    rw [filtertextAt, hc]
    dsimp only
    rw [if_neg hc0, if_neg hcolour, if_neg hkeep, if_neg hone]
    have hs' : IsString (Function.update text dst e) (src + 1) s := hs.update (by omega) e
    have hplace' : dst + 1 ≤ src + 1 ∨ src + 1 + s.length < dst + 1 := by omega
    obtain ⟨text', heq, hleaves⟩ := ih hs' hplace' fuel (by omega)
    exact ⟨text', heq, hleaves.cons (kept_of_not_skipped hcolour hkeep).1⟩

/-- For every string, limit and setting, `filtertext` leaves at most `len` characters, no colours,
only printable characters and allowed spaces; to filter once more changes nothing; and with the
string in memory, the destination the same buffer, before it or apart from it, what is left at the
destination is always this result, with its zero, and no memory behind it is touched. -/
theorem filtertext_spec (whitespace forcespace : Bool) {len : Nat} (hlen : 1 ≤ len) (s : Text) :
    (filtertext whitespace forcespace len s).length ≤ len ∧
    (∀ c ∈ filtertext whitespace forcespace len s, Kept whitespace forcespace c) ∧
    filtertext whitespace forcespace len (filtertext whitespace forcespace len s) =
      filtertext whitespace forcespace len s ∧
    ∀ (text : Nat → UInt8) (dst src fuel : Nat), IsString text src s →
      (dst ≤ src ∨ src + s.length < dst) → s.length < fuel →
      ∃ text', filtertextAt whitespace forcespace fuel text dst src len = some text' ∧
        Leaves text text' dst (filtertext whitespace forcespace len s) := by
  have hlength := length_filtertext_le whitespace forcespace hlen s
  refine ⟨hlength, fun c hc => kept_of_mem_filtertext hc, ?_, ?_⟩
  · exact filtertext_eq_self (fun c hc => kept_of_mem_filtertext hc) hlength
  · intro text dst src fuel hs hplace hfuel
    exact filtertextAt_eq whitespace forcespace hs hplace hfuel

theorem filtertext_spec_coloured : (filtertext true true 3 [12, 49, 9, 65, 1, 66]).length ≤ 3 ∧
    (∀ c ∈ filtertext true true 3 [12, 49, 9, 65, 1, 66], Kept true true c) ∧
    filtertext true true 3 (filtertext true true 3 [12, 49, 9, 65, 1, 66]) =
      filtertext true true 3 [12, 49, 9, 65, 1, 66] ∧
    ∀ (text : Nat → UInt8) (dst src fuel : Nat), IsString text src [12, 49, 9, 65, 1, 66] →
      (dst ≤ src ∨ src + 6 < dst) → 6 < fuel →
      ∃ text', filtertextAt true true fuel text dst src 3 = some text' ∧
        Leaves text text' dst (filtertext true true 3 [12, 49, 9, 65, 1, 66]) :=
  filtertext_spec true true (by decide) _

end Text

end Zuckerserv
