import Mathlib.Algebra.Ring.Int.Defs
import Zuckerserv.Fps.MapVotes
import Zuckerserv.Lib.Machine
import Zuckerserv.Shared.TextFilter

/-!
# The name of the map that a client votes for

A vote is recorded by `strncpy` in a buffer of the client. That writes 64 bytes and no zero behind
them, and the memory of a new client is not cleared.

* `fixmapname`, `Ballot`, `vote`, `step` — the code.
* `Recorded` — the vote of a message is what is recorded.
* `recorded_iff`, `mapvote_limit` — when one message is recorded, and what never changes.
* `votes_recorded_iff` — when all messages of a run are.
* `votes_recorded_dirty` — a client whose memory is not clear.
-/

namespace Zuckerserv

/-- `m_mp(mode)`: all modes but the first three are for servers. -/
def mMp (mode : Int) : Bool := mValid mode ∧ mode ≥ 0

namespace Text

/-- `iscubealnum(c)`. -/
def iscubealnum (c : UInt8) : Bool :=
  (1 ≤ c && c ≤ 8) || (14 ≤ c && c ≤ 31) || (48 ≤ c && c ≤ 57) || (65 ≤ c && c ≤ 90) ||
    (97 ≤ c && c ≤ 122) || c ≥ 127

/-- A character that may be in the name of a map. -/
def ismapchar (c : UInt8) : Bool := iscubealnum c || c == 95 || c == 45 || c == 47 || c == 92

/-- `void validmapname(char *dst, const char *src, const char *prefix, const char *alt,
size_t maxlen)`, without `prefix`. -/
def validmapname (src alt : Text) (maxlen : Nat) : Text :=
  let dst := (src.take maxlen).takeWhile ismapchar
  if dst ≠ [] then dst else copystring maxlen alt

/-- `void fixmapname(char *name)`. -/
def fixmapname (name : Text) : Text := validmapname name [] 100

/-- `char *strncpy(char *dst, const char *src, size_t n)`. -/
def strncpy (dst : Nat → UInt8) (src : Text) (n : Nat) : Nat → UInt8 :=
  fun i => if i < n then src.getD i 0 else dst i

end Text

/-- The fields of `clientinfo` that a vote uses. -/
structure Ballot where
  /-- The memory from `mapvote` on. -/
  mapvote : Nat → UInt8
  modevote : Int
  /-- `state.state == CS_SPECTATOR`. -/
  spectator : Bool
  privilege : Nat
  islocal : Bool

namespace Ballot

/-! ## The code -/

/-- What happens to a client. -/
inductive Action
  /-- `N_MAPVOTE`; `p` are the characters of the message. `limited` and `vetoed` are what
  `message::limit` and the listeners of `event_mapvote` say. -/
  | mapvote (p : List UInt8) (reqmode : Int) (limited vetoed : Bool)
  /-- The map changes. -/
  | mapchange
  /-- The client becomes a spectator or a player, and gets or loses its privilege. -/
  | change (spectator : Bool) (privilege : Nat)

/-- The name of the map in `N_MAPVOTE`. -/
def requested (p : List UInt8) : Text :=
  Text.fixmapname (Text.filtertext false false (Text.MAXTRANS - 1) (Text.getstring Text.MAXTRANS p))

/-- The vote is accepted: the condition in `vote`. -/
def accepts (ci : Ballot) (reqmode : Int) : Bool :=
  ¬ ((ci.spectator ∧ ci.privilege = 0 ∧ ¬ ci.islocal) ∨ (¬ ci.islocal ∧ ¬ mMp reqmode))

/-- `void vote(const char *map, int reqmode, int sender)`, as far as the client is concerned. When
the map changes at once, that is another action. -/
def vote (ci : Ballot) (map : Text) (reqmode : Int) : Ballot :=
  if ¬ ci.accepts reqmode then ci
  else { ci with mapvote := Text.strncpy ci.mapvote map 64, modevote := reqmode }

/-- The mode of `N_MAPVOTE`. -/
def requestedmode (ci : Ballot) (reqmode : Int) : Int :=
  if ¬ ci.islocal ∧ ¬ mMp reqmode then 0 else reqmode

/-- One action. -/
def step (ci : Ballot) : Action → Ballot
  | .mapvote p reqmode limited vetoed =>
    if ¬ limited ∧ ¬ vetoed then ci.vote (requested p) (ci.requestedmode reqmode) else ci
  | .mapchange =>
    { ci with mapvote := Function.update ci.mapvote 0 0, modevote := 2 ^ 31 - 1 }
  | .change spectator privilege => { ci with spectator := spectator, privilege := privilege }

/-! ## What is recorded -/

/-- The action is a vote that is accepted. -/
def Accepted (ci : Ballot) : Action → Prop
  | .mapvote _ reqmode limited vetoed =>
    limited = false ∧ vetoed = false ∧ ci.accepts (ci.requestedmode reqmode) = true
  | _ => False

/-- If the action is a vote that is accepted, what is recorded is a string with its zero: the name
in the message, up to 64 characters of it, and the mode. -/
def Recorded (ci : Ballot) (a : Action) : Prop := ∀ p reqmode limited vetoed,
  a = .mapvote p reqmode limited vetoed → ci.Accepted a →
    Text.IsString (ci.step a).mapvote 0 ((requested p).take 64) ∧
      (ci.step a).modevote = ci.requestedmode reqmode

/-- If the action is a vote that is accepted, its name has less than 64 characters, or the byte
behind them is zero. -/
def Fits (ci : Ballot) (a : Action) : Prop := ∀ p reqmode limited vetoed,
  a = .mapvote p reqmode limited vetoed → ci.Accepted a →
    (requested p).length < 64 ∨ ci.mapvote 64 = 0

end Ballot

namespace Text

/-- A string at an address, byte by byte. -/
theorem isString_iff {text : Nat → UInt8} {a : Nat} {s : Text} : IsString text a s ↔
    0 ∉ s ∧ (∀ i < s.length, text (a + i) = s.getD i 0) ∧ text (a + s.length) = 0 := by
  induction s generalizing a with
  | nil => simp [IsString]
  | cons c s ih =>
    have hshift (i : Nat) : a + 1 + i = a + (i + 1) := by omega
    rw [IsString, ih, hshift, List.length_cons, List.mem_cons, not_or]
    constructor
    · rintro ⟨⟨hc, hac⟩, hs, hbytes, hend⟩
      refine ⟨⟨hc.symm, hs⟩, fun i hi => ?_, hend⟩
      cases i with
      | zero => exact hac
      | succ i =>
        rw [← hshift]
        exact hbytes i (Nat.lt_of_succ_lt_succ hi)
    · rintro ⟨⟨hc, hs⟩, hbytes, hend⟩
      refine ⟨⟨Ne.symm hc, hbytes 0 (Nat.succ_pos _)⟩, hs, fun i hi => ?_, hend⟩
      rw [hshift]
      exact hbytes (i + 1) (Nat.succ_lt_succ hi)

/-- After `strncpy` there is a string if the source is shorter than the limit, or a zero is there
already. -/
theorem isString_strncpy {dst : Nat → UInt8} {src : Text} (h : 0 ∉ src) (n : Nat) :
    IsString (strncpy dst src n) 0 (src.take n) ↔ src.length < n ∨ dst n = 0 := by
  have hbytes : ∀ i < (src.take n).length,
      strncpy dst src n (0 + i) = (src.take n).getD i 0 := by
    intro i hi
    rw [List.length_take] at hi
    have hn : i < n := by omega
    rw [Nat.zero_add, strncpy, if_pos hn, List.getD_eq_getElem?_getD, List.getD_eq_getElem?_getD,
      List.getElem?_take_of_lt hn]
  rw [isString_iff, List.length_take]
  rw [List.length_take] at hbytes
  constructor
  · rintro ⟨-, -, hend⟩
    by_cases hlt : src.length < n
    · exact .inl hlt
    · rw [Nat.min_eq_left (by omega), Nat.zero_add, strncpy, if_neg (Nat.lt_irrefl n)] at hend
      exact .inr hend
  · intro hcase
    refine ⟨fun hmem => h (List.mem_of_mem_take hmem), hbytes, ?_⟩
    by_cases hlt : src.length < n
    · rw [Nat.min_eq_right (Nat.le_of_lt hlt), Nat.zero_add, strncpy, if_pos hlt,
        List.getD_eq_getElem?_getD, List.getElem?_eq_none (Nat.le_refl _)]
      rfl
    · rw [Nat.min_eq_left (by omega), Nat.zero_add, strncpy, if_neg (Nat.lt_irrefl n)]
      exact hcase.resolve_left hlt

/-- There is only one string at an address. -/
theorem IsString.unique {text : Nat → UInt8} {a : Nat} {s t : Text} (hs : IsString text a s)
    (ht : IsString text a t) : s = t := by
  induction s generalizing a t with
  | nil =>
    cases t with
    | nil => rfl
    | cons d t => exact absurd (ht.1.2.symm.trans hs) ht.1.1
  | cons c s ih =>
    cases t with
    | nil => exact absurd (hs.1.2.symm.trans ht) hs.1.1
    | cons d t => rw [← hs.1.2, ← ht.1.2, ih hs.2 ht.2]

theorem zero_not_mem_fixmapname (name : Text) : 0 ∉ fixmapname name := by
  unfold fixmapname validmapname
  dsimp only
  split
  · intro h
    have hchar := List.all_takeWhile (p := ismapchar) (l := name.take 100)
    exact absurd (List.all_eq_true.mp hchar 0 h) (by decide)
  · exact List.not_mem_nil

end Text

namespace Ballot

/-- A vote is recorded if and only if it fits. -/
theorem recorded_iff (ci : Ballot) (a : Action) : ci.Recorded a ↔ ci.Fits a := by
  refine forall_congr' fun p => forall_congr' fun reqmode => forall_congr' fun limited =>
    forall_congr' fun vetoed => forall_congr' fun ha => ?_
  subst ha
  refine forall_congr' fun haccepted => ?_
  obtain ⟨rfl, rfl, haccepts⟩ := haccepted
  have hstep : ci.step (.mapvote p reqmode false false) = { ci with
      mapvote := Text.strncpy ci.mapvote (requested p) 64
      modevote := ci.requestedmode reqmode } := by
    show (if ¬ ci.accepts _ = true then ci else _) = _
    rw [if_neg (not_not.mpr haccepts)]
  have hstring : Text.IsString (Text.strncpy ci.mapvote (requested p) 64) 0
      ((requested p).take 64) ↔ (requested p).length < 64 ∨ ci.mapvote 64 = 0 :=
    Text.isString_strncpy (Text.zero_not_mem_fixmapname _) 64
  rw [hstep]
  exact (and_iff_left rfl).trans hstring

/-- Two clients whose votes for the same map are recorded are counted for the same map. -/
theorem counted_alike {c d : Ballot} {p q : List UInt8} {reqmode reqmode' : Int}
    (hc : c.Recorded (.mapvote p reqmode false false))
    (hca : c.Accepted (.mapvote p reqmode false false))
    (hd : d.Recorded (.mapvote q reqmode' false false))
    (hda : d.Accepted (.mapvote q reqmode' false false)) (hsame : requested p = requested q)
    {s t : Text} (hs : Text.IsString (c.step (.mapvote p reqmode false false)).mapvote 0 s)
    (ht : Text.IsString (d.step (.mapvote q reqmode' false false)).mapvote 0 t) : s = t := by
  have hcs := (hc p reqmode false false rfl hca).1
  have hdt := (hd q reqmode' false false rfl hda).1
  rw [hs.unique hcs, ht.unique hdt, hsame]

/-- The byte behind the name never changes, so it is up to the memory of a new client. -/
theorem mapvote_limit (ci : Ballot) (as : List Action) :
    (Machine.run step ci as).mapvote 64 = ci.mapvote 64 := by
  have hne : (64 : Nat) ≠ 0 := by decide
  refine Machine.run_inv (P := fun c : Ballot => c.mapvote 64 = ci.mapvote 64) (fun c a hc => ?_)
    rfl as
  cases a with
  | mapvote p reqmode limited vetoed =>
    unfold step vote
    dsimp only
    split
    · split
      · exact hc
      · exact hc
    · exact hc
  | mapchange => exact (Function.update_of_ne hne 0 c.mapvote).trans hc
  | change spectator privilege => exact hc

/-- If the action is a vote that is accepted, its name has less than 64 characters. -/
def Short (ci : Ballot) (a : Action) : Prop := ∀ p reqmode limited vetoed,
  a = .mapvote p reqmode limited vetoed → ci.Accepted a → (requested p).length < 64

/-- For every client, whatever is in its memory at the start, and every run: all votes that are
accepted are recorded as what their messages say, with a zero behind it, if and only if the byte 64
of the memory is zero at the start, or all their names have less than 64 characters. Two clients
whose votes for the same map are recorded so are counted for the same map. -/
theorem votes_recorded_iff (ci : Ballot) (as : List Action) :
    (Machine.Along Recorded step ci as ↔ ci.mapvote 64 = 0 ∨ Machine.Along Short step ci as) ∧
    ∀ (c d : Ballot) (p q : List UInt8) (reqmode reqmode' : Int) (s t : Text),
      c.Recorded (.mapvote p reqmode false false) → c.Accepted (.mapvote p reqmode false false) →
      d.Recorded (.mapvote q reqmode' false false) → d.Accepted (.mapvote q reqmode' false false) →
      requested p = requested q →
      Text.IsString (c.step (.mapvote p reqmode false false)).mapvote 0 s →
      Text.IsString (d.step (.mapvote q reqmode' false false)).mapvote 0 t → s = t := by
  refine ⟨?_, fun c d p q reqmode reqmode' s t hc hca hd hda hsame hs ht =>
    counted_alike hc hca hd hda hsame hs ht⟩
  simp only [Machine.along_iff, recorded_iff]
  constructor
  · intro hfits
    by_cases hclear : ci.mapvote 64 = 0
    · exact .inl hclear
    · refine .inr fun bs a cs has p reqmode limited vetoed ha haccepted => ?_
      have hcase := hfits bs a cs has p reqmode limited vetoed ha haccepted
      rw [mapvote_limit] at hcase
      exact hcase.resolve_right hclear
  · rintro (hclear | hshort) bs a cs has p reqmode limited vetoed ha haccepted
    · exact .inr ((mapvote_limit ci bs).trans hclear)
    · exact .inl (hshort bs a cs has p reqmode limited vetoed ha haccepted)

/-- A new client. Its memory is clear but for one byte. -/
def dirty (b : UInt8) : Ballot where
  mapvote := fun i => if i = 64 then b else 0
  modevote := 2 ^ 31 - 1
  spectator := false
  privilege := 0
  islocal := false

/-- A vote for a name of 64 characters. -/
def longvote : Action := .mapvote (List.replicate 64 97 ++ [0]) 0 false false

/-- In one client's memory the name goes on behind its end, in the other's it does not: the same
vote is recorded as two different strings. -/
theorem votes_recorded_dirty : ¬ Machine.Along Recorded step (dirty 98) [longvote] ∧
    Text.IsString ((dirty 98).step longvote).mapvote 0 (List.replicate 64 97 ++ [98]) ∧
    Text.IsString ((dirty 0).step longvote).mapvote 0 (List.replicate 64 97) := by
  have hrequested : requested (List.replicate 64 97 ++ [0]) = List.replicate 64 97 := by
    decide +kernel
  have hlength : (requested (List.replicate 64 97 ++ [0])).length = 64 := by rw [hrequested]; rfl
  refine ⟨fun h => ?_, ?_, ?_⟩
  · have hfits := (recorded_iff _ _).mp h.1 _ 0 false false rfl ⟨rfl, rfl, by decide⟩
    rw [hlength] at hfits
    exact hfits.elim (Nat.lt_irrefl 64) (by decide)
  · rw [Text.isString_iff]
    decide +kernel
  · rw [Text.isString_iff]
    decide +kernel

end Ballot

end Zuckerserv
