import Mathlib.Data.List.Basic

/-!
# Player commands

A line that begins with a command character is cut at its quotes, and every other piece is taken as
one argument as it is. The pieces in between are cut at white space. A quote next to a quote makes
no piece, and a piece that is not there is not counted.

* `execCommand` — a line, and what becomes of it.
* `line` — the line that a player writes for a command and its arguments.
* `split_written` — the arguments come back when none of them is empty.
* `exec_command_line_iff` — when the command is called with the arguments of the line.
-/

namespace Zuckerserv

namespace Command

/-! ## The code -/

/-- `%s`. -/
def isspace (c : Char) : Bool :=
  c = ' ' ∨ c = '\t' ∨ c = '\n' ∨ c = '\x0b' ∨ c = '\x0c' ∨ c = '\r'

/-- The matches of `string.gmatch(text, '[class]+')`: the longest runs of characters of the class. -/
def gmatch (cls : Char → Bool) (text : List Char) : List (List Char) :=
  (text.splitOnP fun c => !cls c).filter (· ≠ [])

/-- `string.gmatch(token, '[^%s]+')`. -/
def words (token : List Char) : List (List Char) := gmatch (fun c => !isspace c) token

/-- The loop over the tokens. -/
def collect : Nat → List (List Char) → List (List Char)
  | _, [] => []
  | quotecount, token :: tokens =>
    (if quotecount % 2 = 0 then words token else [token]) ++ collect (quotecount + 1) tokens

/-- The arguments of a text, the name of the command being the first of them. -/
def split (text : List Char) : List (List Char) := collect 0 (gmatch (· ≠ '"') text)

/-- What `player_commands` has for a name. -/
structure Entry (ρ : Type) where
  /-- Whether the field is `true`. -/
  enabled : Bool
  run : Option ρ
  permission : Int

/-- What becomes of a line. -/
inductive Outcome (ρ : Type)
  /-- The line is not a command. -/
  | ignored
  /-- The player gets a message. -/
  | message (key : String)
  /-- The function is called with the client number and the arguments. -/
  | call (run : ρ) (cn : Int) (arguments : List (List Char))
  deriving DecidableEq

/-- `is_command_prefix(text)`. -/
def isCommand (text : List Char) : Bool :=
  match text with
  | c :: _ => c = '#' ∨ c = '!' ∨ c = '@'
  | [] => false

variable {ρ : Type}

/-- `exec_command(cn, text, force)`, where the player has the given privilege. -/
def execCommand (player_commands : List Char → Option (Entry ρ)) (privilege cn : Int)
    (text : List Char) (force : Bool) : Outcome ρ :=
  if !force && !isCommand text then .ignored
  else
    let text := if isCommand text then text.drop 1 else text
    let arguments := split text
    match arguments.head?.bind player_commands with
    | none => .message "command_not_found_message"
    | some command =>
      match command.run with
      | none => .message "command_disabled"
      | some run =>
        if !command.enabled then .message "command_disabled"
        else if privilege < command.permission then .message "command_permission_denied"
        else .call run cn (arguments.drop 1)

/-! ## A line -/

/-- An argument that is empty or has white space is written in quotes. -/
def written (argument : List Char) : List Char :=
  if argument = [] ∨ argument.any isspace then '"' :: argument ++ ['"'] else argument

/-- The line for a command and its arguments. -/
def line (c : Char) (name : List Char) (arguments : List (List Char)) : List Char :=
  c :: [' '].intercalate (name :: arguments.map written)

/-! ## The pieces of a text -/

theorem gmatch_append (cls : Char → Bool) {sep : Char} (hsep : cls sep = false)
    (u v : List Char) : gmatch cls (u ++ sep :: v) = gmatch cls u ++ gmatch cls v := by
  have hcut : (!cls sep) = true := by rw [hsep]; rfl
  rw [gmatch, List.splitOnP_append_cons u v hcut, List.filter_append]
  rfl

theorem gmatch_of_all {cls : Char → Bool} {u : List Char} (h : ∀ c ∈ u, cls c = true)
    (hne : u ≠ []) : gmatch cls u = [u] := by
  have hnone : ∀ c ∈ u, (!cls c) = false := fun c hc => by rw [h c hc]; rfl
  rw [gmatch, List.splitOnP_eq_singleton hnone]
  exact List.filter_eq_self.mpr (by simpa using hne)

@[simp] theorem gmatch_nil (cls : Char → Bool) : gmatch cls [] = [] := rfl

theorem ne_nil_of_mem_gmatch {cls : Char → Bool} {u t : List Char} (h : t ∈ gmatch cls u) :
    t ≠ [] := by
  have hmem := (List.mem_filter.mp h).2
  exact of_decide_eq_true hmem

/-- No argument of a text is empty. -/
theorem ne_nil_of_mem_split {text t : List Char} (h : t ∈ split text) : t ≠ [] := by
  have hcollect (tokens : List (List Char)) (htokens : ∀ t ∈ tokens, t ≠ []) (n : Nat)
      (ht : t ∈ collect n tokens) : t ≠ [] := by
    induction tokens generalizing n with
    | nil => exact absurd ht List.not_mem_nil
    | cons token tokens ih =>
      rw [List.forall_mem_cons] at htokens
      rw [collect, List.mem_append] at ht
      rcases ht with ht | ht
      · split_ifs at ht with hquote
        · exact ne_nil_of_mem_gmatch ht
        · rw [List.mem_singleton] at ht
          rw [ht]
          exact htokens.1
      · exact ih htokens.2 (n + 1) ht
  exact hcollect _ (fun _ => ne_nil_of_mem_gmatch) 0 h

/-! ## Lines without empty arguments -/

/-- The arguments behind the name. -/
def rest (arguments : List (List Char)) : List Char :=
  arguments.flatMap fun argument => ' ' :: written argument

theorem intercalate_written (name : List Char) (arguments : List (List Char)) :
    [' '].intercalate (name :: arguments.map written) = name ++ rest arguments := by
  induction arguments generalizing name with
  | nil => simp [rest]
  | cons argument arguments ih =>
    rw [List.map_cons, List.intercalate_cons_cons, ih, rest, rest, List.flatMap_cons]
    simp

/-- The text that is left of a line, from inside an unquoted piece on. -/
theorem collect_rest {u : List Char} (hu : '"' ∉ u) {arguments : List (List Char)}
    (hquote : ∀ a ∈ arguments, '"' ∉ a) (hne : [] ∉ arguments) {n : Nat} (hn : n % 2 = 0) :
    collect n (gmatch (· ≠ '"') (u ++ rest arguments)) = words u ++ arguments := by
  induction arguments generalizing u n with
  | nil =>
    rw [rest, List.flatMap_nil, List.append_nil, List.append_nil]
    rcases eq_or_ne u [] with rfl | hnil
    · rfl
    · have hall : ∀ c ∈ u, decide (c ≠ '"') = true := fun c hc =>
        decide_eq_true fun heq => hu (heq ▸ hc)
      rw [gmatch_of_all hall hnil, collect, collect, if_pos hn, List.append_nil]
  | cons argument arguments ih =>
    rw [List.forall_mem_cons] at hquote
    rw [List.mem_cons, not_or] at hne
    have hspace : '"' ∉ u ++ [' '] := by
      rw [List.mem_append, not_or]
      exact ⟨hu, by decide⟩
    have hwords (v : List Char) : words (u ++ ' ' :: v) = words u ++ words v :=
      gmatch_append _ rfl u v
    rw [rest, List.flatMap_cons, written]
    split_ifs with hwritten
    · -- a quoted argument is a piece, and so is what comes before it
      have hpiece : ∀ c ∈ u ++ [' '], decide (c ≠ '"') = true := fun c hc =>
        decide_eq_true fun heq => hspace (heq ▸ hc)
      have hargument : ∀ c ∈ argument, decide (c ≠ '"') = true := fun c hc =>
        decide_eq_true fun heq => hquote.1 (heq ▸ hc)
      have htext : u ++ (' ' :: ('"' :: argument ++ ['"']) ++ rest arguments) =
          (u ++ [' ']) ++ '"' :: (argument ++ '"' :: ([] ++ rest arguments)) := by simp
      have hcut (v w : List Char) : gmatch (· ≠ '"') (v ++ '"' :: w) =
          gmatch (· ≠ '"') v ++ gmatch (· ≠ '"') w := gmatch_append _ (by decide) v w
      have hmod : (n + 1) % 2 ≠ 0 := by omega
      have hih := ih (u := []) List.not_mem_nil hquote.2 hne.2 (n := n + 2) (by omega)
      show collect n (gmatch _ (u ++ (' ' :: ('"' :: argument ++ ['"']) ++ rest arguments))) = _
      rw [htext, hcut (u ++ [' ']), hcut argument, gmatch_of_all hpiece (by simp), gmatch_of_all hargument (Ne.symm hne.1),
        List.singleton_append, List.singleton_append, collect, collect, if_pos hn, if_neg hmod,
        hih, hwords]
      simp [words]
    · -- an unquoted one belongs to the piece
      rw [not_or] at hwritten
      have hargument : ∀ c ∈ argument, (!isspace c) = true := by
        intro c hc
        have hfalse : ¬ isspace c = true := fun h =>
          hwritten.2 (List.any_eq_true.mpr ⟨c, hc, h⟩)
        simpa using hfalse
      have htext : u ++ (' ' :: argument ++ rest arguments) =
          (u ++ ' ' :: argument) ++ rest arguments := by simp
      have hword : words argument = [argument] := gmatch_of_all hargument hwritten.1
      have hpiece : '"' ∉ u ++ ' ' :: argument := by
        rw [List.mem_append, List.mem_cons, not_or, not_or]
        exact ⟨hu, by decide, hquote.1⟩
      show collect n (gmatch _ (u ++ (' ' :: argument ++ rest arguments))) = _
      rw [htext, ih hpiece hquote.2 hne.2 hn, hwords, hword, List.append_assoc]
      rfl

/-! ## The command -/

/-- A name that can be written. -/
structure Name (name : List Char) : Prop where
  ne_nil : name ≠ []
  plain : ∀ c ∈ name, c ≠ '"' ∧ isspace c = false

/-- The arguments come back. -/
theorem split_written {name : List Char} (hname : Name name) {arguments : List (List Char)}
    (hquote : ∀ a ∈ arguments, '"' ∉ a) (hne : [] ∉ arguments) :
    split ([' '].intercalate (name :: arguments.map written)) = name :: arguments := by
  have hplain : '"' ∉ name := fun h => (hname.plain _ h).1 rfl
  have hwords : words name = [name] := by
    refine gmatch_of_all (fun c hc => ?_) hname.ne_nil
    rw [(hname.plain c hc).2]
    rfl
  rw [intercalate_written, split, collect_rest hplain hquote hne rfl, hwords]
  rfl

section Exec

variable {player_commands : List Char → Option (Entry ρ)} {privilege cn : Int}

/-- A permitted command is called with the arguments that its line is split into. -/
theorem execCommand_eq {text : List Char} (htext : isCommand text) (force : Bool)
    {name : List Char} {arguments : List (List Char)}
    (hsplit : split (text.drop 1) = name :: arguments)
    {command : Entry ρ} (hcommand : player_commands name = some command)
    (henabled : command.enabled = true) {run : ρ} (hrun : command.run = some run)
    (hpermission : command.permission ≤ privilege) :
    execCommand player_commands privilege cn text force = .call run cn arguments := by
  have hprivilege : ¬ privilege < command.permission := by omega
  have hfound : (name :: arguments).head?.bind player_commands = some command := hcommand
  rw [execCommand, htext, Bool.not_true, Bool.and_false, if_neg Bool.false_ne_true]
  dsimp only
  rw [if_pos rfl, hsplit, hfound]
  dsimp only
  rw [hrun, henabled, Bool.not_true]
  dsimp only
  rw [if_neg Bool.false_ne_true, if_neg hprivilege]
  rfl

/-- Whatever a line calls has the arguments that the line is split into. -/
theorem arguments_of_call {text : List Char} {force : Bool} {run : ρ}
    {arguments : List (List Char)} (htext : isCommand text)
    (h : execCommand player_commands privilege cn text force = .call run cn arguments) :
    arguments = (split (text.drop 1)).drop 1 := by
  unfold execCommand at h
  rw [htext, Bool.not_true, Bool.and_false, if_neg Bool.false_ne_true] at h
  dsimp only at h
  rw [if_pos rfl] at h
  split at h
  · exact absurd h (by simp)
  · split at h
    · exact absurd h (by simp)
    · split_ifs at h
      injection h with _ _ harguments
      exact harguments.symm

/-- **A line calls the command** with the arguments that were written, exactly when none of them is
empty. -/
theorem exec_command_line_iff {c : Char} (hc : isCommand [c]) {name : List Char}
    (hname : Name name) {command : Entry ρ} (hcommand : player_commands name = some command)
    (henabled : command.enabled = true) {run : ρ} (hrun : command.run = some run)
    (hpermission : command.permission ≤ privilege) {arguments : List (List Char)}
    (hquote : ∀ a ∈ arguments, '"' ∉ a) (force : Bool) :
    execCommand player_commands privilege cn (line c name arguments) force =
        .call run cn arguments ↔ [] ∉ arguments := by
  have htext : isCommand (line c name arguments) := hc
  constructor
  · intro h hmem
    have harguments := arguments_of_call htext h
    rw [harguments] at hmem
    exact ne_nil_of_mem_split (List.mem_of_mem_drop hmem) rfl
  · intro hne
    exact execCommand_eq htext force (split_written hname hquote hne) hcommand henabled hrun
      hpermission

end Exec

/-- A command with an argument that has white space. -/
theorem exec_command_line_quoted :
    execCommand (fun _ => some ⟨true, some (), 0⟩) 0 3
      (line '#' ['s'] [['a', ' ', 'b'], ['c']]) false = .call () 3 [['a', ' ', 'b'], ['c']] := by
  have hname : Name ['s'] := ⟨by simp, by simp [isspace]⟩
  have hquote : ∀ a ∈ [['a', ' ', 'b'], ['c']], '"' ∉ a := by simp
  exact (exec_command_line_iff rfl hname rfl rfl rfl (Int.le_refl 0) hquote false).mpr (by simp)

/-- An empty argument is lost, and the argument behind it is taken with its space. -/
theorem exec_command_empty_argument :
    execCommand (fun _ => some ⟨true, some (), 0⟩) 0 3 (line '#' ['s'] [[], ['c']]) false =
      .call () 3 [[' ', 'c']] := by
  decide

end Command

end Zuckerserv
