import Mathlib.Data.List.Basic

/-!
# Table constructors

Lua writes the list of the fields of a table with commas between them, and a comma may stand behind
the last one. Blanks may stand before a field, and before a comma.

* `Constructor.fields` — the fields up to the closing brace.
* `Constructor.fields_concat` — the fields with commas between them.
* `Constructor.fields_lines` — the fields on lines of their own, each with a comma behind it.
-/

namespace Zuckerserv

namespace Constructor

variable {α β : Type} {item : List Char → Option (α × List Char)} {text rest : List Char} {x : α}
  {n : Nat}

/-- What is left when blanks are skipped. -/
def skip (text : List Char) : List Char := text.dropWhile Char.isWhitespace

/-- The fields, each one read by `item`, up to the closing brace; at most so many. -/
def fields (item : List Char → Option (α × List Char)) :
    Nat → List Char → Option (List α × List Char)
  | 0, _ => none
  | fuel + 1, text =>
    match skip text with
    | '}' :: rest => some ([], rest)
    | text => (item text).bind fun (x, rest) =>
      match skip rest with
      | ',' :: rest => (fields item fuel rest).map fun (xs, rest) => (x :: xs, rest)
      | '}' :: rest => some ([x], rest)
      | _ => none

/-- `table.concat(texts, ",")`. -/
def concat : List (List Char) → List Char
  | [] => []
  | [text] => text
  | text :: texts => text ++ ',' :: concat texts

/-- The text is read as the field when a comma or a brace comes behind it. -/
structure Written (item : List Char → Option (α × List Char)) (text : List Char) (x : α) :
    Prop where
  starts : ∃ c later, text = c :: later ∧ c.isWhitespace = false ∧ c ≠ '}'
  reads : ∀ sep rest, sep = ',' ∨ sep = '}' → item (text ++ sep :: rest) = some (x, sep :: rest)

theorem skip_of_not_blank {c : Char} (h : c.isWhitespace = false) (text : List Char) :
    skip (c :: text) = c :: text := by
  rw [skip, List.dropWhile_cons_of_neg (Bool.eq_false_iff.mp h)]

/-- A field and what comes behind it. -/
theorem Written.fields_eq (h : Written item text x) {sep : Char} (hsep : sep = ',' ∨ sep = '}')
    (n : Nat) (rest : List Char) : fields item (n + 1) (text ++ sep :: rest) =
      if sep = ',' then (fields item n rest).map fun p => (x :: p.1, p.2)
      else some ([x], rest) := by
  obtain ⟨c, later, rfl, hblank, hbrace⟩ := h.starts
  have hskip : skip (c :: later ++ sep :: rest) = c :: later ++ sep :: rest :=
    skip_of_not_blank hblank _
  have hreads := h.reads sep rest hsep
  rw [fields, hskip]
  split
  · rename_i heq
    exact absurd (List.cons.inj heq).1 hbrace
  · rw [hreads, Option.bind_some]
    rcases hsep with rfl | rfl
    · rfl
    · rfl

/-- The brace closes the table. -/
theorem fields_brace (item : List Char → Option (α × List Char)) (n : Nat) (rest : List Char) :
    fields item (n + 1) ('}' :: rest) = some ([], rest) := rfl

/-- A newline before a field is skipped. -/
theorem fields_newline (item : List Char → Option (α × List Char)) (n : Nat) (rest : List Char) :
    fields item n ('\n' :: rest) = fields item n rest := by
  cases n with
  | zero => rfl
  | succ n =>
    have hskip : skip ('\n' :: rest) = skip rest := List.dropWhile_cons_of_pos rfl
    rw [fields, hskip, fields]

/-- Fields with commas between them are read back. -/
theorem fields_concat (write : β → List Char) (value : β → α) {bs : List β}
    (h : ∀ b ∈ bs, Written item (write b) (value b)) (hn : bs.length < n) (rest : List Char) :
    fields item n (concat (bs.map write) ++ '}' :: rest) = some (bs.map value, rest) := by
  induction bs generalizing n with
  | nil =>
    cases n with
    | zero => cases hn
    | succ n => exact fields_brace item n rest
  | cons b bs ih =>
    cases n with
    | zero => cases hn
    | succ n =>
      have hb : Written item (write b) (value b) := h b List.mem_cons_self
      cases bs with
      | nil => exact hb.fields_eq (.inr rfl) n rest
      | cons b' bs =>
        have hlater := ih (fun b'' hb'' => h b'' (List.mem_cons_of_mem b hb''))
          (Nat.lt_of_succ_lt_succ hn)
        have hconcat : concat ((b :: b' :: bs).map write) ++ '}' :: rest =
            write b ++ ',' :: (concat ((b' :: bs).map write) ++ '}' :: rest) :=
          List.append_assoc ..
        rw [hconcat, hb.fields_eq (.inl rfl), if_pos rfl, hlater]
        rfl

/-- Fields on lines of their own are read back. -/
theorem fields_lines (write : β → List Char) (value : β → α) {bs : List β}
    (h : ∀ b ∈ bs, Written item (write b) (value b)) (hn : bs.length < n) (rest : List Char) :
    fields item n (bs.flatMap (fun b => write b ++ [',', '\n']) ++ '}' :: rest) =
      some (bs.map value, rest) := by
  induction bs generalizing n with
  | nil =>
    cases n with
    | zero => cases hn
    | succ n => exact fields_brace item n rest
  | cons b bs ih =>
    cases n with
    | zero => cases hn
    | succ n =>
      have hb : Written item (write b) (value b) := h b List.mem_cons_self
      have hlater := ih (fun b' hb' => h b' (List.mem_cons_of_mem b hb'))
        (Nat.lt_of_succ_lt_succ hn)
      have hlines : (b :: bs).flatMap (fun b => write b ++ [',', '\n']) ++ '}' :: rest =
          write b ++ ',' :: '\n' ::
            (bs.flatMap (fun b => write b ++ [',', '\n']) ++ '}' :: rest) := by
        rw [List.flatMap_cons, List.append_assoc, List.append_assoc]
        rfl
      rw [hlines, hb.fields_eq (.inl rfl), if_pos rfl, fields_newline, hlater]
      rfl

end Constructor

end Zuckerserv
