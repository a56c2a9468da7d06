import Zuckerserv.Lib.Lines
import Zuckerserv.Lib.Machine

/-!
# The input of the auth server

What a game server sends is received into a buffer, and the lines are cut out of it. A zero is put
behind the input that is there; when the buffer is full, it is put in place of the last byte.

* `receive`, `checkclientinput` — a read, and the lines that are handled.
* `Served` — all lines that have been sent so far have been handled.
* `served_iff` — when this is so in all states of a run.
-/

namespace Zuckerserv

namespace AuthInput

open Lines Machine

/-! ## The client -/

/-- `INPUT_LIMIT`, the size of the buffer. -/
def INPUT_LIMIT : Nat := 4096

/-- `'\n'`. -/
def newline : UInt8 := 10

/-- `client`: the first `inputpos` bytes of the buffer, the lines that have been handled, and
whether the client has been purged. -/
structure Client where
  input : List UInt8
  handled : List (List UInt8)
  purged : Bool

/-- The start of a connection. -/
def Client.init : Client := ⟨[], [], false⟩

/-- The loop of `checkclientinput`, for at most so many lines: up to each newline the input is a
command, and what is behind it moves to the front. -/
def lineLoop : Nat → List UInt8 → List (List UInt8) × List UInt8
  | 0, input => ([], input)
  | turns + 1, input =>
    match input.idxOf? newline with
    | none => ([], input)
    | some pos =>
      let later := lineLoop turns (input.drop (pos + 1))
      (input.take pos :: later.1, later.2)

/-- `checkclientinput(c)`; a client whose line does not fit is purged. -/
def checkclientinput (c : Client) : Client :=
  let lines := lineLoop c.input.length c.input
  ⟨lines.2, c.handled ++ lines.1, !decide (lines.2.length < INPUT_LIMIT)⟩

/-- `c.input[min(c.inputpos, (int)sizeof(c.input)-1)] = '\0'`. -/
def terminate (input : List UInt8) : List UInt8 := input.set (min input.length (INPUT_LIMIT - 1)) 0

/-- A read from the socket. -/
def receive (c : Client) (data : List UInt8) : Client :=
  if c.purged then c else checkclientinput { c with input := terminate (c.input ++ data) }

/-- What a read can return: some bytes, as many as there is room for. -/
def Received (c : Client) (data : List UInt8) : Prop :=
  c.purged = false → data ≠ [] ∧ c.input.length + data.length ≤ INPUT_LIMIT

/-- A client is served if it is not purged, the lines of what it has sent have been handled, and
the buffer has room for its input. -/
structure Served (sent : List UInt8) (c : Client) : Prop where
  handled : c.handled = (cut newline sent).1
  kept : c.purged = false
  room : c.input.length < INPUT_LIMIT

/-- If the read fills the buffer, its last byte is zero already, or no newline follows. -/
def Spared (c : Client) (data later : List UInt8) : Prop :=
  ∀ first last, data = first ++ [last] → c.input.length + data.length = INPUT_LIMIT →
    last = 0 ∨ newline ∉ last :: later

/-! ## One read -/

variable {c : Client} {data sent later input : List UInt8}

/-- The loop cuts all lines out of the input. -/
theorem lineLoop_eq_cut {turns : Nat} (h : input.length ≤ turns) :
    lineLoop turns input = cut newline input := by
  induction turns generalizing input with
  | zero =>
    rw [List.eq_nil_of_length_eq_zero (Nat.le_zero.mp h)]
    rfl
  | succ turns ih =>
    cases hpos : input.idxOf? newline with
    | none => rw [lineLoop, hpos, cut_of_not_mem (List.idxOf?_eq_none_iff.mp hpos)]
    | some pos =>
      obtain ⟨hlt, heq, hbefore⟩ := List.idxOf?_eq_some_iff.mp hpos
      have hfront : newline ∉ input.take pos := by
        intro hmem
        obtain ⟨j, hj, hget⟩ := List.mem_take_iff_getElem.mp hmem
        have hjpos : j < pos := Nat.lt_of_lt_of_le hj (Nat.min_le_left ..)
        exact hbefore j hjpos hget
      have hinput : input = input.take pos ++ newline :: input.drop (pos + 1) := by
        rw [← heq, List.getElem_cons_drop, List.take_append_drop]
      have hlater : (input.drop (pos + 1)).length ≤ turns := by
        rw [List.length_drop]
        omega
      rw [lineLoop, hpos]
      dsimp only
      rw [ih hlater]
      conv => rhs; rw [hinput, cut_line hfront]

/-- Where there is room for a zero behind the input, nothing changes. -/
theorem terminate_of_lt (h : input.length < INPUT_LIMIT) : terminate input = input := by
  have hpos : min input.length (INPUT_LIMIT - 1) = input.length := by omega
  rw [terminate, hpos]
  exact List.set_eq_of_length_le (Nat.le_refl _)

/-- In a full buffer the last byte becomes zero. -/
theorem terminate_full {last : UInt8} (h : (input ++ [last]).length = INPUT_LIMIT) :
    terminate (input ++ [last]) = input ++ [0] := by
  rw [List.length_append, List.length_singleton] at h
  have hpos : min (input ++ [last]).length (INPUT_LIMIT - 1) = input.length := by
    rw [List.length_append, List.length_singleton]
    omega
  rw [terminate, hpos, List.set_append_right _ _ (Nat.le_refl _), Nat.sub_self]
  rfl

/-- The bytes of a read as they come into the buffer: the last one is zero if it is full. -/
theorem exists_terminate (hnil : data ≠ []) (h : c.input.length + data.length ≤ INPUT_LIMIT) :
    ∃ data', terminate (c.input ++ data) = c.input ++ data' ∧ (data' = data ∨
      ∃ first last, data = first ++ [last] ∧ data' = first ++ [0] ∧
        c.input.length + data.length = INPUT_LIMIT) := by
  rcases Nat.lt_or_eq_of_le h with hlt | heq
  · exact ⟨data, terminate_of_lt (by rwa [List.length_append]), .inl rfl⟩
  · rcases List.eq_nil_or_concat data with hnil' | ⟨first, last, hdata⟩
    · exact absurd hnil' hnil
    · rw [List.concat_eq_append] at hdata
      subst hdata
      refine ⟨first ++ [0], ?_, .inr ⟨first, last, rfl, rfl, heq⟩⟩
      rw [← List.append_assoc, terminate_full, List.append_assoc]
      rw [List.append_assoc, List.length_append]
      exact heq

theorem receive_of_terminate {data' : List UInt8} (hkept : c.purged = false)
    (h : terminate (c.input ++ data) = c.input ++ data') : receive c data =
      ⟨(cut newline (c.input ++ data')).2, c.handled ++ (cut newline (c.input ++ data')).1,
        !decide ((cut newline (c.input ++ data')).2.length < INPUT_LIMIT)⟩ := by
  unfold receive checkclientinput
  rw [if_neg (Bool.eq_false_iff.mp hkept), h]
  dsimp only
  rw [lineLoop_eq_cut (Nat.le_refl _)]

/-! ## What the server has seen -/

/-- The lines and the input are those of what the server has seen. -/
def Holds (c : Client) (seen : List UInt8) : Prop := cut newline seen = (c.handled, c.input)

/-- A read adds what comes into the buffer. -/
theorem Holds.snoc {seen data' : List UInt8} (h : Holds c seen) (hkept : c.purged = false)
    (hdata : terminate (c.input ++ data) = c.input ++ data') :
    Holds (receive c data) (seen ++ data') := by
  rw [Holds, cut_append, h, receive_of_terminate hkept hdata]

theorem receive_of_purged (h : c.purged = true) (data : List UInt8) : receive c data = c := if_pos h

/-- A client that is there at the end has been there before. -/
theorem kept_of_run (chunks : List (List UInt8))
    (h : (Machine.run receive c chunks).purged = false) :
    c.purged = false := by
  induction chunks generalizing c with
  | nil => exact h
  | cons data chunks ih =>
    have hnext := ih h
    cases hc : c.purged with
    | false => rfl
    | true =>
      rw [receive_of_purged hc] at hnext
      rw [hc] at hnext
      cases hnext

/-- In a run at whose end the client is there, as much has been seen as was sent. -/
theorem Holds.append {seen : List UInt8} {chunks : List (List UInt8)} (h : Holds c seen)
    (hread : Along Received receive c chunks)
    (hkept : (Machine.run receive c chunks).purged = false) :
    ∃ seen', seen'.length = chunks.flatten.length ∧
      Holds (Machine.run receive c chunks) (seen ++ seen') := by
  induction chunks generalizing c seen with
  | nil => exact ⟨[], rfl, (List.append_nil seen).symm ▸ h⟩
  | cons data chunks ih =>
    have hc : c.purged = false := kept_of_run (data :: chunks) hkept
    obtain ⟨hnil, hroom⟩ := hread.1 hc
    obtain ⟨data', hdata', hsame⟩ := exists_terminate hnil hroom
    obtain ⟨seen', hlength, hend⟩ := ih (h.snoc hc hdata') hread.2 hkept
    refine ⟨data' ++ seen', ?_, ?_⟩
    · rw [List.flatten_cons, List.length_append, List.length_append, hlength]
      rcases hsame with rfl | ⟨first, last, rfl, rfl, -⟩
      · rfl
      · rw [List.length_append, List.length_append]
        rfl
    · rwa [List.append_assoc] at hend

/-! ## What has been sent -/

/-- The input is as long as what is left of what has been sent, and is the same as long as a
newline is to come. -/
structure Matched (c : Client) (sent later : List UInt8) : Prop where
  handled : c.handled = (cut newline sent).1
  kept : c.purged = false
  no_newline : newline ∉ c.input
  length : c.input.length = (cut newline sent).2.length
  same : c.input = (cut newline sent).2 ∨ newline ∉ later

theorem Matched.served (h : Matched c sent later)
    (hshort : Short newline INPUT_LIMIT (sent ++ later)) : Served sent c :=
  ⟨h.handled, h.kept, h.length ▸ hshort.of_append⟩

/-- What a read that is spared brings is cut where it should be, and is left as it is as long as a
newline is to come. -/
theorem Matched.cut (h : Matched c sent (data ++ later)) (hspared : Spared c data later)
    {data' : List UInt8} (hdata : data' = data ∨ ∃ first last, data = first ++ [last] ∧
      data' = first ++ [0] ∧ c.input.length + data.length = INPUT_LIMIT) :
    (cut newline (c.input ++ data')).1 = (cut newline ((cut newline sent).2 ++ data)).1 ∧
      (cut newline (c.input ++ data')).2.length =
        (cut newline ((cut newline sent).2 ++ data)).2.length ∧
      ((cut newline (c.input ++ data')).2 = (cut newline ((cut newline sent).2 ++ data)).2 ∨
        newline ∉ later) := by
  rcases h.same with hsame | hnever
  · rw [← hsame]
    rcases hdata with rfl | ⟨first, last, rfl, rfl, hfull⟩
    · exact ⟨rfl, rfl, .inl rfl⟩
    · rcases hspared first last rfl hfull with rfl | hnone
      · exact ⟨rfl, rfl, .inl rfl⟩
      · obtain ⟨hlast, hlater⟩ := not_or.mp (mt List.mem_cons.mpr hnone)
        have hzero : (0 : UInt8) ≠ newline := by decide
        rw [← List.append_assoc, ← List.append_assoc, cut_snoc hzero, cut_snoc (Ne.symm hlast),
          List.length_append, List.length_append]
        exact ⟨rfl, rfl, .inr hlater⟩
  · -- No newline is to come at all.
    have hlater : newline ∉ later := fun hmem => hnever (List.mem_append_right data hmem)
    have hold : newline ∉ data := fun hmem => hnever (List.mem_append_left later hmem)
    have hnew : newline ∉ data' ∧ data'.length = data.length := by
      rcases hdata with rfl | ⟨first, last, rfl, rfl, -⟩
      · exact ⟨hold, rfl⟩
      · refine ⟨fun hmem => ?_, by rw [List.length_append, List.length_append]; rfl⟩
        rcases List.mem_append.mp hmem with hfirst | hzero
        · exact hold (List.mem_append_left _ hfirst)
        · exact absurd (List.mem_singleton.mp hzero) (by decide)
    have hleft : newline ∉ c.input ++ data' := fun hmem =>
      (List.mem_append.mp hmem).elim h.no_newline hnew.1
    have hright : newline ∉ (Lines.cut newline sent).2 ++ data := fun hmem =>
      (List.mem_append.mp hmem).elim (not_mem_rest _ _) hold
    rw [cut_of_not_mem hleft, cut_of_not_mem hright, List.length_append, List.length_append,
      h.length, hnew.2]
    exact ⟨rfl, rfl, .inr hlater⟩

/-- A read that is spared keeps the input as it should be. -/
theorem Matched.receive (h : Matched c sent (data ++ later)) (hread : Received c data)
    (hspared : Spared c data later)
    (hshort : Short newline INPUT_LIMIT (sent ++ (data ++ later))) :
    Matched (receive c data) (sent ++ data) later := by
  obtain ⟨hnil, hroom⟩ := hread h.kept
  obtain ⟨data', hdata', hcases⟩ := exists_terminate hnil hroom
  obtain ⟨hlines, hlength, hsame⟩ := h.cut hspared hcases
  have hfits : (Lines.cut newline (c.input ++ data')).2.length < INPUT_LIMIT := by
    rw [← List.append_assoc] at hshort
    have hlt := hshort.of_append
    rwa [cut_append, ← hlength] at hlt
  rw [receive_of_terminate h.kept hdata']
  constructor
  · rw [cut_append newline sent data, ← hlines, ← h.handled]
  · exact congrArg (!·) (decide_eq_true hfits)
  · exact not_mem_rest _ _
  · rw [cut_append newline sent data]
    exact hlength
  · rw [cut_append newline sent data]
    exact hsame

theorem Matched.init (later : List UInt8) : Matched Client.init [] later :=
  ⟨rfl, rfl, List.not_mem_nil, rfl, .inl rfl⟩

/-- A run in which every read is spared. -/
theorem Matched.run {chunks : List (List UInt8)} (h : Matched c sent (chunks.flatten ++ later))
    (hread : Along Received AuthInput.receive c chunks)
    (hspared : ∀ bs data cs, chunks = bs ++ data :: cs →
      Spared (Machine.run AuthInput.receive c bs) data (cs.flatten ++ later))
    (hshort : Short newline INPUT_LIMIT (sent ++ (chunks.flatten ++ later))) :
    Matched (Machine.run AuthInput.receive c chunks) (sent ++ chunks.flatten) later := by
  induction chunks generalizing c sent with
  | nil =>
    rw [List.flatten_nil, List.append_nil]
    exact h
  | cons data chunks ih =>
    rw [List.flatten_cons, List.append_assoc] at h hshort
    have hnext := h.receive hread.1 (hspared [] data chunks rfl) hshort
    rw [← List.append_assoc] at hshort
    rw [List.flatten_cons, ← List.append_assoc]
    refine ih hnext hread.2 (fun bs data' cs hbs => ?_) hshort
    exact hspared (data :: bs) data' cs (congrArg (data :: ·) hbs)

/-! ## Every stream -/

/-- A read that overwrites its last byte is not made good again. -/
theorem spared_of_served {bs cs : List (List UInt8)}
    (hread : Along Received receive Client.init (bs ++ data :: cs))
    (h : Served (bs ++ data :: cs).flatten (Machine.run receive Client.init (bs ++ data :: cs))) :
    Spared (Machine.run receive Client.init bs) data cs.flatten := by
  rintro first last rfl hfull
  have hkept := h.kept
  rw [run_append] at hkept
  obtain ⟨hbefore, hdata, hafter⟩ := along_append.mp hread
  have hkept' : (Machine.run receive Client.init bs).purged = false := kept_of_run _ hkept
  have hinit : Holds Client.init [] := rfl
  obtain ⟨seen, hlength, hseen⟩ := hinit.append hbefore hkept'
  have hzero : terminate ((Machine.run receive Client.init bs).input ++ (first ++ [last])) =
      (Machine.run receive Client.init bs).input ++ (first ++ [0]) := by
    rw [← List.append_assoc, terminate_full, List.append_assoc]
    rw [List.append_assoc, List.length_append]
    exact hfull
  obtain ⟨seen', -, hend⟩ := (hseen.snoc hkept' hzero).append hafter hkept
  have hhandled := h.handled
  rw [run_append] at hhandled
  have hlines := (congrArg Prod.fst hend).trans hhandled
  rw [List.flatten_append, List.flatten_cons] at hlines
  simp only [List.nil_append, List.append_assoc, List.singleton_append] at hlines
  rw [← List.append_assoc, ← List.append_assoc] at hlines
  rcases eq_or_not_mem_of_cut (by rw [List.length_append, List.length_append, hlength]) hlines with
    heq | hnot
  · exact .inl heq.symm
  · exact .inr hnot

/-- A stream with lines shorter than the buffer is read in pieces. All the lines are handled as
they come, whatever the pieces are, if and only if each read that fills the buffer is spared. -/
theorem served_iff (chunks : List (List UInt8)) (hread : Along Received receive Client.init chunks)
    (hshort : Short newline INPUT_LIMIT chunks.flatten) :
    (∀ bs cs, chunks = bs ++ cs → Served bs.flatten (Machine.run receive Client.init bs)) ↔
      ∀ bs data cs, chunks = bs ++ data :: cs →
        Spared (Machine.run receive Client.init bs) data cs.flatten := by
  constructor
  · rintro hserved bs data cs rfl
    exact spared_of_served hread (hserved _ [] (List.append_nil _).symm)
  · rintro hspared bs cs rfl
    rw [List.flatten_append] at hshort
    refine ((Matched.init _).run (along_append.mp hread).1 (fun bs' data cs' hbs => ?_)
      hshort).served hshort
    have hbs' : bs ++ cs = bs' ++ data :: (cs' ++ cs) := by
      rw [hbs, List.append_assoc]
      rfl
    have hsp := hspared bs' data (cs' ++ cs) hbs'
    rwa [List.flatten_append] at hsp

/-- As many empty lines as fill the buffer. -/
def emptyLines : List UInt8 := List.replicate (INPUT_LIMIT - 1) newline ++ [newline]

/-- In one piece, the last of the empty lines is not handled. -/
theorem last_line_lost :
    ¬ Served [emptyLines].flatten (Machine.run receive Client.init [emptyLines]) := by
  intro h
  have hlength : emptyLines.length = INPUT_LIMIT := by
    rw [emptyLines, List.length_append, List.length_replicate, List.length_singleton]
    decide
  have hfull : terminate (Client.init.input ++ emptyLines) =
      Client.init.input ++ (List.replicate (INPUT_LIMIT - 1) newline ++ [0]) :=
    terminate_full hlength
  have hlines := congrArg List.length h.handled
  rw [List.flatten_singleton, length_lines, emptyLines, List.count_append,
    List.count_replicate_self] at hlines
  change (receive Client.init emptyLines).handled.length = _ at hlines
  rw [receive_of_terminate rfl hfull] at hlines
  change (Lines.cut newline
    (List.replicate (INPUT_LIMIT - 1) newline ++ [0])).1.length = _ at hlines
  rw [length_lines, List.count_append, List.count_replicate_self] at hlines
  exact absurd hlines (by decide)

/-- Two lines in two pieces. -/
theorem served_iff_two : Served [[113, 10, 97], [98, 10]].flatten
    (Machine.run receive Client.init [[113, 10, 97], [98, 10]]) := by
  refine (served_iff [[113, 10, 97], [98, 10]]
    ⟨fun _ => ⟨by decide, by decide⟩, fun _ => ⟨by decide, by decide⟩, trivial⟩
    ⟨by decide, by decide⟩).mpr (fun bs data cs hbs => ?_) [[113, 10, 97], [98, 10]] [] rfl
  rcases bs with _ | ⟨b, _ | ⟨b', bs⟩⟩
  · obtain ⟨rfl, -⟩ := List.cons.inj hbs
    exact fun _ _ _ hfull => absurd hfull (by decide)
  · obtain ⟨rfl, hrest⟩ := List.cons.inj hbs
    obtain ⟨rfl, -⟩ := List.cons.inj hrest
    exact fun _ _ _ hfull => absurd hfull (by decide)
  · have hlength := congrArg List.length hbs
    simp at hlength

end AuthInput

end Zuckerserv
