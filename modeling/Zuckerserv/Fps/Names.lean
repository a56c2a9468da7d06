import Zuckerserv.Fps.TeamTable
import Zuckerserv.Lib.Machine

/-!
# The names of clients and teams

A client gives itself a name as it connects and changes it later; it changes its team, and a
client with a privilege changes the team of another. Names and teams are to be short.

* `step` — the messages with names.
* `Server.Short` — no name is longer than it may be.
* `ShortText` — a change is to a short name.
* `names_short_iff` — all names are short as long as all changes are to short ones.
-/

namespace Zuckerserv

namespace Names

open Text Teams Machine

/-! ## The messages -/

/-- What a client is called. -/
structure Client where
  clientnum : Int
  connected : Bool
  name : Text
  team : Text
  deriving DecidableEq

structure Server where
  clients : List Client
  teaminfos : List TeamInfo

/-- `getinfo(n)`. -/
def Server.getinfo (s : Server) (n : Int) : Option Client := s.clients.find? (·.clientnum == n)

/-- The client `n` is changed. -/
def Server.modify (s : Server) (n : Int) (f : Client → Client) : Server :=
  { s with clients := s.clients.map fun ci => if ci.clientnum = n then f ci else ci }

/-- The teams of the clients that are connected. -/
def Server.teams (s : Server) : List Text := (s.clients.filter (·.connected)).map (·.team)

/-- `"unnamed"`. -/
def unnamed : Text := [117, 110, 110, 97, 109, 101, 100]

/-- `"good"`. -/
def good : Text := [103, 111, 111, 100]

/-- A name, as it is received and filtered. The limit that the calls pass to `filtertext` is taken
for its argument `forcespace`; what limits the text is the size of the buffer. -/
def received (p : List UInt8) : Text :=
  filtertext false true (MAXTRANS - 1) (getstring MAXTRANS p)

/-- A client's name as received. -/
def receivedName (p : List UInt8) : Text := if received p = [] then unnamed else received p

/-- `player_rename(cn, newname, false)`. -/
def playerRename (convert2cube : Text → Text) (s : Server) (cn : Int) (newname : Text) : Server :=
  let safenewname := filtertext false true MAXNAMELEN (convert2cube newname)
  let safenewname := if safenewname = [] then unnamed else safenewname
  if cn ≥ 128 then s
  else s.modify cn fun ci => { ci with name := copystring (MAXNAMELEN + 1) safenewname }

/-- The messages, each with the bytes of its string, and what else comes and goes. -/
inductive Action
  /-- A peer connects, and gets the free number `n`. -/
  | clientconnect (n : Int)
  /-- `N_CONNECT` that is admitted; `worst` is the worst team, in a team mode. -/
  | connect (n : Int) (p : List UInt8) (worst : Option Text)
  /-- `N_SWITCHNAME`; `allowed` when the client is no spy, and neither the limit of messages nor a
  listener prevents the change. -/
  | switchname (n : Int) (p : List UInt8) (convert2cube : Text → Text) (allowed : Bool)
  /-- `N_SWITCHTEAM`; `allowed` in a team mode where neither the mode, the limit of messages nor a
  listener prevents the change. -/
  | switchteam (n : Int) (p : List UInt8) (allowed : Bool)
  /-- `N_SETTEAM` from a client with a privilege; `allowed` as for `N_SWITCHTEAM`. -/
  | setteam (who : Int) (p : List UInt8) (allowed : Bool)
  | disconnect (n : Int)

/-- The case `N_CONNECT`, and `connected(ci)`. -/
def connect (s : Server) (n : Int) (p : List UInt8) (worst : Option Text) : Server :=
  match s.getinfo n with
  | none => s
  | some ci =>
    if ci.connected then s
    else s.modify n fun ci =>
      { ci with
        name := copystring (MAXNAMELEN + 1) (receivedName p)
        connected := true
        team := copystring (MAXTEAMLEN + 1) (worst.getD good) }

/-- The case `N_SWITCHNAME`. -/
def switchname (s : Server) (n : Int) (p : List UInt8) (convert2cube : Text → Text)
    (allowed : Bool) : Server :=
  match s.getinfo n with
  | none => s
  | some ci =>
    let text := receivedName p
    if ¬ ci.connected ∨ ci.name = text then s
    else if allowed then s.modify n fun ci => { ci with name := copystring MAXSTRLEN text }
    else playerRename convert2cube s n ci.name

/-- The case `N_SWITCHTEAM`. -/
def switchteam (s : Server) (n : Int) (p : List UInt8) (allowed : Bool) : Server :=
  match s.getinfo n with
  | none => s
  | some ci =>
    let text := received p
    if ¬ (ci.connected ∧ text ≠ [] ∧ ci.team ≠ text ∧ allowed) then s
    else
      let added := addteaminfo s.teaminfos s.teams text
      let s := { s with teaminfos := added.1 }
      if added.2 then s.modify n fun ci => { ci with team := copystring MAXSTRLEN text } else s

/-- The case `N_SETTEAM`. -/
def setteam (s : Server) (who : Int) (p : List UInt8) (allowed : Bool) : Server :=
  match s.getinfo who with
  | none => s
  | some wi =>
    let text := received p
    if text = [] ∨ ¬ wi.connected ∨ wi.team = text ∨ ¬ allowed then s
    else
      let added := addteaminfo s.teaminfos s.teams text
      let s := { s with teaminfos := added.1 }
      if added.2 then s.modify who fun wi => { wi with team := copystring (MAXTEAMLEN + 1) text }
      else s

/-- One step of the server. -/
def step (s : Server) : Action → Server
  | .clientconnect n =>
    if (s.getinfo n).isSome then s else { s with clients := s.clients ++ [⟨n, false, [], []⟩] }
  | .connect n p worst => connect s n p worst
  | .switchname n p convert2cube allowed => switchname s n p convert2cube allowed
  | .switchteam n p allowed => switchteam s n p allowed
  | .setteam who p allowed => setteam s who p allowed
  | .disconnect n => { s with clients := s.clients.filter (·.clientnum ≠ n) }

/-- The server that nobody is on. -/
def start : Server := ⟨[], []⟩

/-! ## Short names -/

/-- The name and the team are no longer than they may be. -/
def Client.Short (ci : Client) : Prop :=
  ci.name.length ≤ MAXNAMELEN ∧ ci.team.length ≤ MAXTEAMLEN

/-- All names are short. -/
def Server.Short (s : Server) : Prop := ∀ ci ∈ s.clients, ci.Short

/-- A change of name or team that is granted is to a short one. -/
def ShortText (s : Server) : Action → Prop
  | .switchname n p _ allowed => ∀ ci, s.getinfo n = some ci → ci.connected = true →
      ci.name ≠ receivedName p → allowed = true → (receivedName p).length ≤ MAXNAMELEN
  | .switchteam n p allowed => ∀ ci, s.getinfo n = some ci → ci.connected = true →
      received p ≠ [] → ci.team ≠ received p → allowed = true →
      (addteaminfo s.teaminfos s.teams (received p)).2 = true → (received p).length ≤ MAXTEAMLEN
  | _ => True

variable {s : Server} {n : Int} {ci : Client} {f : Client → Client}

theorem getinfo_spec (h : s.getinfo n = some ci) : ci ∈ s.clients ∧ ci.clientnum = n :=
  ⟨List.mem_of_find?_eq_some h, by simpa using List.find?_some h⟩

/-- A change that keeps names short. -/
theorem Server.Short.modify (h : s.Short) (hf : ∀ ci, ci.Short → (f ci).Short) :
    (s.modify n f).Short := by
  intro ci hci
  obtain ⟨c, hc, rfl⟩ := List.mem_map.mp hci
  split
  · exact hf c (h c hc)
  · exact h c hc

/-- The client that is changed is one of the clients after the change. -/
theorem mem_modify (h : s.getinfo n = some ci) : f ci ∈ (s.modify n f).clients := by
  obtain ⟨hmem, hnum⟩ := getinfo_spec h
  exact List.mem_map.mpr ⟨ci, hmem, if_pos hnum⟩

/-- A change of the name to a text, as far as it fits the buffer. -/
theorem short_rename_iff (h : s.Short) (hget : s.getinfo n = some ci) (text : Text) :
    (s.modify n fun ci => { ci with name := copystring MAXSTRLEN text }).Short ↔
      text.length ≤ MAXNAMELEN := by
  constructor
  · intro hshort
    have hname := (hshort _ (mem_modify hget)).1
    exact (length_copystring_le_iff (by decide) text).mp hname
  · intro htext
    exact h.modify fun ci hci => ⟨(length_copystring_le_iff (by decide) text).mpr htext, hci.2⟩

/-- A change of the team to a text, as far as it fits the buffer. -/
theorem short_reteam_iff (h : s.Short) (hget : s.getinfo n = some ci) (text : Text) :
    (s.modify n fun ci => { ci with team := copystring MAXSTRLEN text }).Short ↔
      text.length ≤ MAXTEAMLEN := by
  constructor
  · intro hshort
    have hteam := (hshort _ (mem_modify hget)).2
    exact (length_copystring_le_iff (by decide) text).mp hteam
  · intro htext
    exact h.modify fun ci hci => ⟨hci.1, (length_copystring_le_iff (by decide) text).mpr htext⟩

/-- A copy that is limited to `n` characters. -/
theorem length_copystring_le (n : Nat) (text : Text) : (copystring (n + 1) text).length ≤ n := by
  rw [length_copystring]
  exact Nat.min_le_left _ _

/-- The table is no matter. -/
theorem Server.Short.table (h : s.Short) (teaminfos : List TeamInfo) :
    Server.Short { s with teaminfos := teaminfos } := h

/-- Who connects has a short name and a short team. -/
theorem Server.Short.connect (h : s.Short) (n : Int) (p : List UInt8) (worst : Option Text) :
    (connect s n p worst).Short := by
  unfold Names.connect
  split
  · exact h
  · split
    · exact h
    · exact h.modify fun ci _ => ⟨length_copystring_le _ _, length_copystring_le _ _⟩

/-- A change of the name keeps names short if and only if it is refused or to a short one. -/
theorem short_switchname_iff (h : s.Short) (n : Int) (p : List UInt8)
    (convert2cube : Text → Text) (allowed : Bool) :
    ShortText s (.switchname n p convert2cube allowed) ↔
      (switchname s n p convert2cube allowed).Short := by
  unfold switchname ShortText
  cases hget : s.getinfo n with
  | none => exact ⟨fun _ => h, fun _ ci hci => absurd (hget.symm.trans hci) (by simp)⟩
  | some ci =>
    dsimp only
    split
    · rename_i hsame
      refine ⟨fun _ => h, fun _ c hc hcon hne => ?_⟩
      cases hget.symm.trans hc
      exact absurd hsame (not_or.mpr ⟨not_not.mpr hcon, hne⟩)
    · rename_i hother
      obtain ⟨hcon, hne⟩ := not_or.mp hother
      split
      · rename_i hallowed
        rw [short_rename_iff h hget]
        exact ⟨fun hshort => hshort ci hget (not_not.mp hcon) hne hallowed,
          fun hshort _ _ _ _ _ => hshort⟩
      · rename_i hrefused
        refine ⟨fun _ => ?_, fun _ _ _ _ _ hallowed => absurd hallowed hrefused⟩
        unfold playerRename
        dsimp only
        split
        · exact h
        · exact h.modify fun ci hci => ⟨length_copystring_le _ _, hci.2⟩

/-- A change of the team keeps names short if and only if it is refused or to a short one. -/
theorem short_switchteam_iff (h : s.Short) (n : Int) (p : List UInt8) (allowed : Bool) :
    ShortText s (.switchteam n p allowed) ↔ (switchteam s n p allowed).Short := by
  unfold switchteam ShortText
  cases hget : s.getinfo n with
  | none => exact ⟨fun _ => h, fun _ ci hci => absurd (hget.symm.trans hci) (by simp)⟩
  | some ci =>
    dsimp only
    split
    · rename_i hrefused
      refine ⟨fun _ => h, fun _ c hc hcon hne hother hallowed => ?_⟩
      cases hget.symm.trans hc
      exact absurd ⟨hcon, hne, hother, hallowed⟩ hrefused
    · rename_i hasked
      obtain ⟨hcon, hne, hother, hallowed⟩ := not_not.mp hasked
      split
      · rename_i hadded
        have hget' : Server.getinfo { s with
            teaminfos := (addteaminfo s.teaminfos s.teams (received p)).1 } n = some ci := hget
        rw [short_reteam_iff (h.table _) hget']
        exact ⟨fun hshort => hshort ci hget hcon hne hother hallowed hadded,
          fun hshort _ _ _ _ _ _ _ => hshort⟩
      · rename_i hfull
        exact ⟨fun _ => h, fun _ _ _ _ _ _ _ hadded => absurd hadded hfull⟩

/-- `N_SETTEAM` limits the team. -/
theorem Server.Short.setteam (h : s.Short) (who : Int) (p : List UInt8) (allowed : Bool) :
    (setteam s who p allowed).Short := by
  unfold Names.setteam
  split
  · exact h
  · dsimp only
    split
    · exact h
    · split
      · exact (h.table _).modify fun ci hci => ⟨hci.1, length_copystring_le _ _⟩
      · exact h

/-- A step keeps names short if and only if it is not a change to a long one. -/
theorem short_step_iff (s : Server) (a : Action) (h : s.Short) :
    ShortText s a ↔ (step s a).Short := by
  cases a with
  | clientconnect n =>
    refine iff_of_true trivial ?_
    unfold step
    dsimp only
    split
    · exact h
    · intro ci hci
      rcases List.mem_append.mp hci with hci | hci
      · exact h ci hci
      · rw [List.mem_singleton.mp hci]
        exact ⟨Nat.zero_le _, Nat.zero_le _⟩
  | connect n p worst => exact iff_of_true trivial (h.connect n p worst)
  | switchname n p convert2cube allowed => exact short_switchname_iff h n p convert2cube allowed
  | switchteam n p allowed => exact short_switchteam_iff h n p allowed
  | setteam who p allowed => exact iff_of_true trivial (h.setteam who p allowed)
  | disconnect n => exact iff_of_true trivial fun ci hci => h ci (List.mem_of_mem_filter hci)

/-- All names are short in all states of a run if and only if no change is to a long one. -/
theorem names_short_iff (as : List Action) :
    (∀ bs cs, as = bs ++ cs → (Machine.run step start bs).Short) ↔ Along ShortText step start as :=
  always_iff_along short_step_iff (fun _ h => absurd h List.not_mem_nil) as

/-- A client connects and changes its name to one of 16 characters. -/
def longName : List Action :=
  [.clientconnect 0, .connect 0 good none, .switchname 0 (List.replicate 16 120) id true]

theorem long_name : ¬ (Machine.run step start longName).Short := by
  intro h
  have hname := (h _ (List.mem_of_getElem? (i := 0) rfl)).1
  exact absurd hname (by decide +kernel)

end Names

end Zuckerserv
