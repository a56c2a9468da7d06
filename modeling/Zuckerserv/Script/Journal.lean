import Zuckerserv.Lib.Constructor
import Zuckerserv.Net.PrefixParse
import Zuckerserv.Script.IpVarViews

/-!
# The journal of the variables

Every assignment that changes a variable of a mask is written to a file, as a line of a table that
is never closed. What reads the file closes the table, and repeats the assignments.

* `formatArray`, `writerOpen`, `loadJournal` — the file.
* `step` — the assignments, and the reopenings of the file.
* `replay_value` — the file holds the values of the store, in any run.
-/

namespace Zuckerserv

namespace Journal

open Constructor Machine Net Vars

/-! ## The strings -/

/-- How Lua writes a string so that it reads it again: the literal, and the reader behind the
opening quote. -/
structure Quoting where
  formatQ : String → List Char
  read : List Char → Option (String × List Char)
  readFormatQ : ∀ s, ∃ literal, formatQ s = '"' :: literal ∧
    ∀ rest, read (literal ++ rest) = some (s, rest)

/-- A character in a literal. -/
def escape (c : Char) : List Char :=
  if c = '"' ∨ c = '\\' ∨ c = '\n' then ['\\', c] else [c]

/-- The characters up to the closing quote. -/
def readLiteral : List Char → Option (List Char × List Char)
  | [] => none
  | '"' :: rest => some ([], rest)
  | '\\' :: c :: rest => (readLiteral rest).map fun (s, rest) => (c :: s, rest)
  | c :: rest => (readLiteral rest).map fun (s, rest) => (c :: s, rest)

theorem readLiteral_escape (c : Char) (text : List Char) : readLiteral (escape c ++ text) =
    (readLiteral text).map fun (s, rest) => (c :: s, rest) := by
  unfold escape
  split
  · exact readLiteral.eq_3 c text
  · rename_i h
    obtain ⟨hquote, hslash, -⟩ : c ≠ '"' ∧ c ≠ '\\' ∧ c ≠ '\n' := by simpa only [not_or] using h
    rw [List.singleton_append, readLiteral]
    · exact hquote
    · exact fun _ _ h => absurd h hslash

theorem readLiteral_flatMap (s rest : List Char) :
    readLiteral (s.flatMap escape ++ '"' :: rest) = some (s, rest) := by
  induction s with
  | nil => rfl
  | cons c s ih =>
    rw [List.flatMap_cons, List.append_assoc, readLiteral_escape, ih]
    rfl

/-- Quotes, backslashes and newlines stand behind a backslash. -/
def backslashes : Quoting where
  formatQ s := '"' :: (s.toList.flatMap escape ++ ['"'])
  read text := (readLiteral text).map fun (s, rest) => (String.ofList s, rest)
  readFormatQ s := by
    refine ⟨s.toList.flatMap escape ++ ['"'], rfl, fun rest => ?_⟩
    rw [List.append_assoc, List.singleton_append, readLiteral_flatMap]
    exact congrArg (fun s => some (s, rest)) String.ofList_toList

/-! ## The file -/

variable {τ : Type} (T : Table τ) (q : Quoting)

/-- `tostring(value)` for an integer of at most 14 digits. -/
def tostring (n : Int) : List Char :=
  if n < 0 then '-' :: decimal n.natAbs else decimal n.natAbs

/-- `format_value(value)`. -/
def formatValue : Option Value → List Char
  | none => ['n', 'i', 'l']
  | some (.boolean true) => ['t', 'r', 'u', 'e']
  | some (.boolean false) => ['f', 'a', 'l', 's', 'e']
  | some (.number n) => tostring n
  | some (.string s) => q.formatQ s

/-- `format_array(values)`. -/
def formatArray (values : List (Option Value)) : List Char :=
  '{' :: (concat (values.map (formatValue q)) ++ ['}'])

/-- The values of a write. The length of the table `{...}` does not count a `nil` at its end. -/
def writeValues (ipmask : List Char) (name : String) (value : Option Value) :
    List (Option Value) :=
  [some (.string (String.ofList ipmask)), some (.string name)] ++
    if value = none then [] else [value]

/-- `journal_file:write(ipmask, name, value)`. -/
def write (file : List Char) (c : Call) : List Char :=
  file ++ (formatArray q (writeValues c.ipmask.toString c.name c.value) ++ [',', '\n'])

/-- `return {`, the start of a journal. -/
def header : List Char := ['r', 'e', 't', 'u', 'r', 'n', ' ', '{']

/-- `writer_open(filename)`. -/
def writerOpen (file : List Char) : List Char := if file = [] then header else file

/-- A character of a word or a number. -/
def wordChar (c : Char) : Bool := c.isAlphanum || c == '_' || c == '.'

/-- A number of digits only. -/
def readNumber (word : List Char) : Option Nat :=
  if word ≠ [] ∧ word.all Char.isDigit then some (atoi word) else none

/-- An expression: a word, a number or a string. -/
def readValue (text : List Char) : Option (Option Value × List Char) :=
  match text with
  | '"' :: literal => (q.read literal).map fun (s, rest) => (some (.string s), rest)
  | '-' :: text =>
    (readNumber (text.takeWhile wordChar)).map fun n : Nat =>
      (some (.number (-(n : Int))), text.dropWhile wordChar)
  | text =>
    let word := text.takeWhile wordChar
    let rest := text.dropWhile wordChar
    if word = ['n', 'i', 'l'] then some (none, rest)
    else if word = ['t', 'r', 'u', 'e'] then some (some (.boolean true), rest)
    else if word = ['f', 'a', 'l', 's', 'e'] then some (some (.boolean false), rest)
    else (readNumber word).map fun n : Nat => (some (.number n), rest)

/-- A table of expressions. -/
def readArray (text : List Char) : Option (List (Option Value) × List Char) :=
  match text with
  | '{' :: text => fields (readValue q) (text.length + 1) text
  | _ => none

/-- `load_journal(filename)`. -/
def loadJournal (file : List Char) : Option (List (List (Option Value))) :=
  let chunk := file ++ ['}']
  if chunk.take 6 = ['r', 'e', 't', 'u', 'r', 'n'] then
    match skip (chunk.drop 6) with
    | '{' :: text => (fields (readArray q) (text.length + 1) text).bind fun (writes, rest) =>
      if skip rest = [] then some writes else none
    | _ => none
  else none

/-- The assignment of a write. -/
def replay (s : Store τ) : List (Option Value) → Option (Store τ)
  | some (.string ipmask) :: some (.string name) :: values =>
    (addressPrefixParse ipmask.toList).toOption.map fun p => setIpVar T s p name values.head?.join
  | _ => none

/-- `load_vars()`: the store after the writes of the file. -/
def loadVars (file : List Char) : Option (Store τ) :=
  (loadJournal q file).bind (·.foldlM (replay T) (Store.empty T))

/-! ## Runs -/

/-- The store, and the file. -/
structure Server (τ : Type) where
  store : Store τ
  file : List Char

/-- What happens: an assignment, a reopening of the journal, a restart of the server. -/
inductive Action
  | setIpVar (c : Call)
  | reopen
  | restart

/-- The assignment is written: the value is not the one that is there. -/
def commits (s : Store τ) (c : Call) : Bool :=
  decide (c.value ≠ (((ensureVars T s c.ipmask).ipmaskVars c.ipmask).getD ∅).lookup c.name)

/-- One step. -/
def step (s : Server τ) : Action → Server τ
  | .setIpVar c =>
    ⟨Vars.setIpVar T s.store c.ipmask c.name c.value,
      if commits T s.store c then write q s.file c else s.file⟩
  | .reopen => { s with file := writerOpen s.file }
  | .restart =>
    ⟨(loadVars T q (writerOpen s.file)).getD (Store.empty T), writerOpen s.file⟩

/-- The journal is new. -/
def Server.start : Server τ := ⟨Store.empty T, writerOpen []⟩

/-- A number has at most 14 digits. -/
def Small (value : Option Value) : Prop :=
  ∀ n, value = some (.number n) → n.natAbs < 10 ^ 14

/-! ## Reading what is written -/

variable {q} {sep : Char} {rest : List Char}

/-- A word ends at a comma or a brace. -/
theorem word_ends (rest : List Char) (hsep : sep = ',' ∨ sep = '}') {word : List Char}
    (hword : ∀ c ∈ word, wordChar c = true) :
    (word ++ sep :: rest).takeWhile wordChar = word ∧
      (word ++ sep :: rest).dropWhile wordChar = sep :: rest := by
  have hend : wordChar sep ≠ true := by rcases hsep with rfl | rfl <;> decide
  rw [List.takeWhile_append_of_pos hword, List.dropWhile_append_of_pos hword,
    List.takeWhile_cons_of_neg hend, List.dropWhile_cons_of_neg hend, List.append_nil]
  exact ⟨rfl, rfl⟩

theorem isDigit_decimal (n : Nat) : ∀ c ∈ decimal n, c.isDigit = true := fun _ hc =>
  Nat.isDigit_of_mem_toDigits (by decide) (by decide) hc

theorem wordChar_of_isDigit {c : Char} (h : c.isDigit = true) : wordChar c = true := by
  rw [wordChar, Char.isAlphanum, h, Bool.or_true]
  rfl

theorem readNumber_decimal (n : Nat) : readNumber (decimal n) = some n := by
  rw [readNumber, if_pos ⟨decimal_ne_nil n, List.all_eq_true.mpr (isDigit_decimal n)⟩, atoi_decimal]

/-- A number is none of the words. -/
theorem decimal_ne {n : Nat} {c : Char} {word : List Char} (hc : c.isDigit = false)
    (hmem : c ∈ word) : decimal n ≠ word := by
  rintro rfl
  rw [isDigit_decimal n c hmem] at hc
  cases hc

/-- An expression that begins with a character of a word is one. -/
theorem readValue_word (word : List Char) (hsep : sep = ',' ∨ sep = '}')
    (hword : ∀ c ∈ word, wordChar c = true) (hne : word ≠ []) :
    readValue q (word ++ sep :: rest) =
      if word = ['n', 'i', 'l'] then some (none, sep :: rest)
      else if word = ['t', 'r', 'u', 'e'] then some (some (.boolean true), sep :: rest)
      else if word = ['f', 'a', 'l', 's', 'e'] then some (some (.boolean false), sep :: rest)
      else (readNumber word).map fun n : Nat => (some (.number n), sep :: rest) := by
  obtain ⟨htake, hdrop⟩ := word_ends rest hsep hword
  cases word with
  | nil => exact absurd rfl hne
  | cons c word =>
    have hc := hword c List.mem_cons_self
    unfold readValue
    split
    · rename_i heq
      rw [(List.cons.inj heq).1] at hc
      exact absurd hc (by decide)
    · rename_i heq
      rw [(List.cons.inj heq).1] at hc
      exact absurd hc (by decide)
    · rw [htake, hdrop]

/-- A number is written as a word, with a sign if it is negative. -/
theorem written_number (n : Int) : Written (readValue q) (tostring n) (some (.number n)) := by
  obtain ⟨c, later, hdecimal⟩ := List.exists_cons_of_ne_nil (decimal_ne_nil n.natAbs)
  have hc : c.isDigit = true := isDigit_decimal n.natAbs c (hdecimal ▸ List.mem_cons_self)
  have hword := fun c hc => wordChar_of_isDigit (isDigit_decimal n.natAbs c hc)
  unfold tostring
  by_cases hneg : n < 0
  · rw [if_pos hneg]
    refine ⟨⟨'-', _, rfl, by decide, by decide⟩, fun sep rest hsep => ?_⟩
    obtain ⟨htake, hdrop⟩ := word_ends rest hsep hword
    have habs : -(n.natAbs : Int) = n := by omega
    rw [List.cons_append, readValue, htake, hdrop, readNumber_decimal, Option.map_some, habs]
  · rw [if_neg hneg]
    refine ⟨⟨c, later, hdecimal, ?_, ?_⟩, fun sep rest hsep => ?_⟩
    · refine Bool.eq_false_iff.mpr fun hblank => ?_
      rw [Char.isWhitespace] at hblank
      simp only [Bool.or_eq_true, decide_eq_true_eq] at hblank
      rcases hblank with ((rfl | rfl) | rfl) | rfl <;> exact absurd hc (by decide)
    · rintro rfl
      exact absurd hc (by decide)
    · have habs : (n.natAbs : Int) = n := by omega
      rw [readValue_word _ hsep hword (decimal_ne_nil _),
        if_neg (decimal_ne (c := 'n') (by decide) (by decide)),
        if_neg (decimal_ne (c := 't') (by decide) (by decide)),
        if_neg (decimal_ne (c := 'f') (by decide) (by decide)), readNumber_decimal,
        Option.map_some, habs]

/-- Every value is read back. -/
theorem written_value (v : Option Value) : Written (readValue q) (formatValue q v) v := by
  rcases v with _ | ⟨_ | _⟩ | n | s
  · refine ⟨⟨'n', _, rfl, by decide, by decide⟩, fun sep rest hsep => ?_⟩
    exact (readValue_word ['n', 'i', 'l'] hsep (List.all_eq_true.mp rfl) (by decide)).trans
      (if_pos rfl)
  · refine ⟨⟨'f', _, rfl, by decide, by decide⟩, fun sep rest hsep => ?_⟩
    exact readValue_word ['f', 'a', 'l', 's', 'e'] hsep (List.all_eq_true.mp rfl) (by decide)
  · refine ⟨⟨'t', _, rfl, by decide, by decide⟩, fun sep rest hsep => ?_⟩
    exact readValue_word ['t', 'r', 'u', 'e'] hsep (List.all_eq_true.mp rfl) (by decide)
  · exact written_number n
  · obtain ⟨literal, hliteral, hread⟩ := q.readFormatQ s
    refine ⟨⟨'"', literal, hliteral, by decide, by decide⟩, fun sep rest _ => ?_⟩
    rw [formatValue, hliteral, List.cons_append, readValue, hread]
    rfl

theorem length_concat (texts : List (List Char)) : texts.length ≤ (concat texts).length + 1 := by
  induction texts with
  | nil => exact Nat.zero_le _
  | cons text texts ih =>
    cases texts with
    | nil => exact Nat.succ_le_succ (Nat.zero_le _)
    | cons text' texts =>
      rw [concat, List.length_append, List.length_cons, List.length_cons]
      · exact Nat.succ_le_succ (ih.trans (Nat.le_add_left _ _))
      · exact List.cons_ne_nil _ _

/-- An array of values is read back. -/
theorem written_array (values : List (Option Value)) :
    Written (readArray q) (formatArray q values) values := by
  refine ⟨⟨'{', _, rfl, by decide, by decide⟩, fun sep rest _ => ?_⟩
  have htext : formatArray q values ++ sep :: rest =
      '{' :: (concat (values.map (formatValue q)) ++ '}' :: sep :: rest) := by
    rw [formatArray, List.cons_append, List.append_assoc]
    rfl
  have hlength := length_concat (values.map (formatValue q))
  rw [List.length_map] at hlength
  rw [htext, readArray, fields_concat (formatValue q) id (fun v _ => written_value v), List.map_id]
  rw [List.length_append, List.length_cons]
  omega

/-- The lines of a file. -/
def lines (q : Quoting) (writes : List (List (Option Value))) : List Char :=
  writes.flatMap fun values => formatArray q values ++ [',', '\n']

theorem length_lines (writes : List (List (Option Value))) :
    writes.length ≤ (lines q writes).length := by
  induction writes with
  | nil => exact Nat.zero_le _
  | cons values writes ih =>
    rw [lines, List.flatMap_cons, List.length_append, List.length_cons, List.length_append]
    exact (Nat.succ_le_succ ih).trans (by rw [lines]; simp only [List.length_cons]; omega)

/-- A file is read back. -/
theorem loadJournal_lines (writes : List (List (Option Value))) :
    loadJournal q (header ++ lines q writes) = some writes := by
  have hread : fields (readArray q) ((lines q writes ++ ['}']).length + 1)
      (lines q writes ++ ['}']) = some (writes, []) := by
    have hlength := length_lines (q := q) writes
    refine (fields_lines (formatArray q) id (fun values _ => written_array values) ?_ []).trans ?_
    · rw [List.length_append]
      omega
    · rw [List.map_id]
  have hload : loadJournal q (header ++ lines q writes) =
      (fields (readArray q) ((lines q writes ++ ['}']).length + 1) (lines q writes ++ ['}'])).bind
        fun (writes, rest) => if skip rest = [] then some writes else none := rfl
  rw [hload, hread]
  rfl

/-! ## Repeating the assignments -/

/-- An assignment of a call. -/
def assignCall (s : Store τ) (c : Call) : Store τ := Vars.setIpVar T s c.ipmask c.name c.value

/-- The values of the write of a call. -/
def callValues (c : Call) : List (Option Value) :=
  writeValues c.ipmask.toString c.name c.value

theorem replay_call (s : Store τ) {c : Call} (hc : c.Proper) :
    replay T s (callValues c) = some (assignCall T s c) := by
  have hvalue : (if c.value = none then [] else [c.value]).head?.join = c.value := by
    split
    · rename_i hnone
      exact hnone.symm
    · rfl
  change (addressPrefixParse (String.ofList c.ipmask.toString).toList).toOption.map (fun p =>
    setIpVar T s p c.name (if c.value = none then [] else [c.value]).head?.join) = _
  rw [String.toList_ofList, addressPrefixParse_toString hc.1 hc.2, hvalue]
  rfl

theorem foldlM_replay (s : Store τ) {calls : List Call} (hcalls : ∀ c ∈ calls, c.Proper) :
    (calls.map callValues).foldlM (replay T) s = some (calls.foldl (assignCall T) s) := by
  induction calls generalizing s with
  | nil => rfl
  | cons c calls ih =>
    rw [List.map_cons, List.foldlM_cons, replay_call T s (hcalls c List.mem_cons_self)]
    exact ih _ fun c' hc' => hcalls c' (List.mem_cons_of_mem c hc')

/-- The store of a file is that of the assignments that have been written. -/
theorem loadVars_lines {calls : List Call} (hcalls : ∀ c ∈ calls, c.Proper) :
    loadVars T q (header ++ lines q (calls.map callValues)) =
      some (calls.foldl (assignCall T) (Store.empty T)) := by
  rw [loadVars, loadJournal_lines]
  exact foldlM_replay T _ hcalls

/-! ## Every run -/

/-- The values of a store. -/
def SameValues (s s' : Store τ) : Prop := ∀ m name, s.value m name = s'.value m name

/-- The file holds assignments, which lead to the values of the store. -/
structure Kept (q : Quoting) (s : Server τ) : Prop where
  file : ∃ calls : List Call, (∀ c ∈ calls, c.Proper) ∧
    s.file = header ++ lines q (calls.map callValues) ∧
    SameValues s.store (calls.foldl (assignCall T) (Store.empty T))

variable {T} {s : Server τ}

/-- What is in a file is not written again when it is opened. -/
theorem writerOpen_of_kept (h : Kept T q s) : writerOpen s.file = s.file := by
  obtain ⟨calls, -, hfile, -⟩ := h.file
  rw [hfile]
  rfl

theorem Kept.start : Kept T q (Server.start T) where
  file := ⟨[], fun _ h => absurd h List.not_mem_nil, rfl, fun _ _ => rfl⟩

/-- A value that is there already is not written. -/
theorem value_of_not_commits {store : Store τ} {c : Call} (h : commits T store c = false) :
    c.value = store.value c.ipmask c.name := by
  rw [commits, decide_eq_false_iff_not, not_not] at h
  rw [h, ← value_ensureVars T store c.ipmask, Store.value, ensureVars_self]
  rfl

theorem Kept.assign (h : Kept T q s) {c : Call} (hc : c.Proper) :
    Kept T q (step T q s (.setIpVar c)) := by
  obtain ⟨calls, hcalls, hfile, hsame⟩ := h.file
  cases hcommits : commits T s.store c with
  | true =>
    refine ⟨calls ++ [c], fun c' hc' => ?_, ?_, fun m name => ?_⟩
    · rcases List.mem_append.mp hc' with hold | hnew
      · exact hcalls c' hold
      · exact List.mem_singleton.mp hnew ▸ hc
    · have hwrite : (step T q s (.setIpVar c)).file = write q s.file c := if_pos hcommits
      rw [hwrite, write, hfile, lines, lines, List.map_append, List.flatMap_append,
        List.map_singleton, List.flatMap_singleton, List.append_assoc]
      rfl
    · rw [List.foldl_concat]
      change (Vars.setIpVar T s.store c.ipmask c.name c.value).value m name =
        (Vars.setIpVar T _ c.ipmask c.name c.value).value m name
      rw [value_setIpVar, value_setIpVar, hsame m name]
  | false =>
    refine ⟨calls, hcalls, ?_, fun m name => ?_⟩
    · have hold : (step T q s (.setIpVar c)).file = s.file :=
        if_neg (Bool.eq_false_iff.mp hcommits)
      exact hold.trans hfile
    · have hvalue := value_of_not_commits hcommits
      change (Vars.setIpVar T s.store c.ipmask c.name c.value).value m name = _
      rw [value_setIpVar, ← hsame m name]
      split
      · rename_i hm
        rw [hm.1, hm.2, hvalue]
      · rfl

theorem Kept.step (h : Kept T q s) {a : Action}
    (ha : ∀ c, a = .setIpVar c → c.Proper) : Kept T q (step T q s a) := by
  cases a with
  | setIpVar c => exact h.assign (ha c rfl)
  | reopen =>
    obtain ⟨calls, hcalls, hfile, hsame⟩ := h.file
    exact ⟨calls, hcalls, (writerOpen_of_kept h).trans hfile, hsame⟩
  | restart =>
    obtain ⟨calls, hcalls, hfile, -⟩ := h.file
    refine ⟨calls, hcalls, (writerOpen_of_kept h).trans hfile, fun m name => ?_⟩
    change ((loadVars T q (writerOpen s.file)).getD (Store.empty T)).value m name = _
    rw [writerOpen_of_kept h, hfile, loadVars_lines T hcalls]
    rfl

/-- After any run of assignments, reopenings and restarts, the file can be loaded, and gives every
variable of every mask the value that it has in the store. -/
theorem replay_value (T : Table τ) (q : Quoting) (as : List Action)
    (hproper : ∀ c, Action.setIpVar c ∈ as → c.Proper ∧ Small c.value) :
    ∃ loaded,
      loadVars T q (Machine.run (Journal.step T q) (Server.start T) as).file = some loaded ∧
      SameValues loaded (Machine.run (Journal.step T q) (Server.start T) as).store := by
  have hkept : Kept T q (Machine.run (Journal.step T q) (Server.start T) as) := by
    have halong : Along (fun _ a => ∀ c, a = .setIpVar c → c.Proper) (Journal.step T q)
        (Server.start T) as := by
      refine Along.of_forall fun a ha c hc => (hproper c ?_).1
      rwa [← hc]
    exact halong.inv (fun s a ha h => h.step ha) Kept.start
  obtain ⟨calls, hcalls, hfile, hsame⟩ := hkept.file
  refine ⟨_, hfile ▸ loadVars_lines T hcalls, fun m name => (hsame m name).symm⟩

/-- A variable is assigned, the journal is opened again, and the variable is removed. -/
def assignReopenRemove : List Action :=
  [.setIpVar ⟨⟨0x0A000000, 8⟩, "muted", some (.boolean true)⟩, .reopen,
    .setIpVar ⟨⟨0x0A000000, 8⟩, "muted", none⟩]

theorem replay_value_removed : ∃ loaded,
    loadVars treeTable backslashes (Machine.run (Journal.step treeTable backslashes)
      (Server.start treeTable) assignReopenRemove).file = some loaded ∧
    SameValues loaded (Machine.run (Journal.step treeTable backslashes) (Server.start treeTable)
      assignReopenRemove).store := by
  refine replay_value treeTable backslashes assignReopenRemove fun c hc => ?_
  simp only [assignReopenRemove, List.mem_cons, Action.setIpVar.injEq, reduceCtorEq, false_or,
    List.not_mem_nil, or_false] at hc
  rcases hc with rfl | rfl
  · exact ⟨⟨by decide, by decide⟩, nofun⟩
  · exact ⟨⟨by decide, by decide⟩, nofun⟩

end Journal

end Zuckerserv
