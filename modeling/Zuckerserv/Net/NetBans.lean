import Zuckerserv.Lib.Simulation
import Zuckerserv.Net.Address
import Zuckerserv.Shared.Text

/-!
# Network bans

The list of the bans, and the lists that are put aside while bans are loaded anew. The lists that
are put aside are kept in a queue: what comes back is the one that was put there first, and it stays
there.

* `addBan`, `delBan`, `checkBan`, `pushBans`, `popBans` — the operations.
* `Saved` — the lists as a stack.
* `stack_iff` — when the operations do what they do with a stack.
-/

namespace Zuckerserv

namespace NetBans

open Machine Net Text

/-! ## The list of bans -/

/-- `MINBANMASK`. -/
def MINBANMASK : Nat := 16

/-- `netban`; the mask is given by the number of its bits. -/
structure Netban where
  ip : BitVec 32
  mask : Nat
  persist : Bool
  reason : Text
  hits : Nat
  lasthit : Int
  deriving DecidableEq

/-- `is_valid()`. -/
def Netban.isValid (nb : Netban) : Bool :=
  nb.ip != 0 && nb.mask != 0 && decide (MINBANMASK ≤ nb.mask)

/-- `operator==`. -/
def Netban.same (nb nb' : Netban) : Bool := nb.ip == nb'.ip && nb.mask == nb'.mask

/-- `netban(addr, persist)`, where `addr` is the prefix that is read from the address, if it can be
read. -/
def netban (addr : Option Prefix) (persist : Bool) : Netban :=
  let prefix1 := addr.getD ⟨0, 0⟩
  ⟨prefix1.value, prefix1.mask, persist, [], 0, 0⟩

/-- `set_reason(reason_in)`. -/
def Netban.setReason (nb : Netban) (reason_in : Text) : Netban :=
  { nb with reason := copystring 64 reason_in }

/-- `find_ban(nb)`: the index of the ban with the same address and mask. -/
def findBan (netbans : List Netban) (nb : Netban) : Option Nat :=
  if ¬ nb.isValid then none else netbans.findIdx? (·.same nb)

/-- `check_ban(ip)` at the time `now`: the first ban that matches is hit. -/
def checkBan (ip : BitVec 32) (now : Int) : List Netban → List Netban
  | [] => []
  | nb :: rest =>
    if ip &&& maskValue nb.mask = nb.ip &&& maskValue nb.mask then
      { nb with hits := nb.hits + 1, lasthit := now } :: rest
    else nb :: checkBan ip now rest

/-- `add_ban(addr, persist, reason)`. -/
def addBan (netbans : List Netban) (addr : Option Prefix) (persist : Bool) (reason : Text) :
    List Netban :=
  let nb := netban addr persist
  if nb.isValid then
    if (findBan netbans nb).isSome then netbans else netbans ++ [nb.setReason reason]
  else netbans

/-- `del_ban(addr)`. -/
def delBan (netbans : List Netban) (addr : Option Prefix) : List Netban :=
  match findBan netbans (netban addr false) with
  | none => netbans
  | some it => netbans.eraseIdx it

/-! ## The queue -/

/-- The bans, and the lists that are put aside, the front of the queue first. -/
structure Bans where
  netbans : List Netban
  stack : List (List Netban)

/-- `push_bans()`. -/
def pushBans (s : Bans) : Bans := ⟨[], s.stack ++ [s.netbans]⟩

/-- `pop_bans()`. -/
def popBans (s : Bans) : Bans :=
  match s.stack with
  | [] => s
  | front :: _ => { s with netbans := front }

/-- The operations. -/
inductive Action
  | addBan (addr : Option Prefix) (persist : Bool) (reason : Text)
  | delBan (addr : Option Prefix)
  | clearBans
  | checkBan (ip : BitVec 32) (now : Int)
  | pushBans
  | popBans

/-- What an operation does to the list alone. -/
def edit (netbans : List Netban) : Action → List Netban
  | .addBan addr persist reason => addBan netbans addr persist reason
  | .delBan addr => delBan netbans addr
  | .clearBans => []
  | .checkBan ip now => checkBan ip now netbans
  | .pushBans => netbans
  | .popBans => netbans

/-- One operation. -/
def step (s : Bans) : Action → Bans
  | .pushBans => pushBans s
  | .popBans => popBans s
  | a => { s with netbans := edit s.netbans a }

/-! ## The stack -/

/-- The bans with the lists on a stack. For the record, the list that was put aside first of all is
kept. -/
structure Saved where
  netbans : List Netban
  saved : List (List Netban)
  first : Option (List Netban)

/-- One operation with a stack: the list that was put aside last comes back, and is gone from the
stack; where there is none, nothing comes back. -/
def Saved.step (t : Saved) : Action → Saved
  | .pushBans => ⟨[], t.netbans :: t.saved, some (t.first.getD t.netbans)⟩
  | .popBans =>
    match t.saved with
    | [] => t
    | top :: saved => { t with netbans := top, saved := saved }
  | a => { t with netbans := edit t.netbans a }

/-- What comes back is the list that was put aside first of all. -/
def FirstPushed (t : Saved) : Action → Prop
  | .popBans => t.saved.head?.getD t.netbans = t.first.getD t.netbans
  | _ => True

/-- The bans are those of the machine with the stack. -/
structure Related (s : Bans) (t : Saved) : Prop where
  netbans : s.netbans = t.netbans
  front : s.stack.head? = t.first

variable {s : Bans} {t : Saved}

theorem netbans_popBans (s : Bans) : (popBans s).netbans = s.stack.head?.getD s.netbans := by
  unfold popBans
  split <;> rename_i h <;> rw [h] <;> rfl

theorem netbans_pop (t : Saved) :
    (t.step .popBans).netbans = t.saved.head?.getD t.netbans := by
  unfold Saved.step
  dsimp only
  split <;> rename_i h <;> rw [h] <;> rfl

/-- What a pop brings back, with the queue and with the stack. -/
theorem Related.pop_iff (h : Related s t) :
    (popBans s).netbans = (t.step .popBans).netbans ↔ FirstPushed t .popBans := by
  rw [netbans_popBans, netbans_pop, h.front, h.netbans]
  exact eq_comm

theorem Related.step (h : Related s t) (a : Action) (hok : FirstPushed t a) :
    Related (step s a) (t.step a) := by
  have hedit : edit s.netbans a = edit t.netbans a := congrArg (edit · a) h.netbans
  cases a with
  | pushBans =>
    refine ⟨rfl, ?_⟩
    change (s.stack ++ [s.netbans]).head? = some (t.first.getD t.netbans)
    rw [List.head?_append, h.front, h.netbans]
    cases t.first <;> rfl
  | popBans =>
    refine ⟨h.pop_iff.mpr hok, ?_⟩
    have hstack : (popBans s).stack = s.stack := by
      unfold popBans
      split <;> rfl
    have hfirst : (t.step .popBans).first = t.first := by
      unfold Saved.step
      dsimp only
      split <;> rfl
    rw [hfirst, ← h.front]
    exact congrArg List.head? hstack
  | addBan addr persist reason => exact ⟨hedit, h.front⟩
  | delBan addr => exact ⟨hedit, h.front⟩
  | clearBans => exact ⟨hedit, h.front⟩
  | checkBan ip now => exact ⟨hedit, h.front⟩

/-! ## Every run -/

/-- The bans are those of the machine with the stack, in all states of a run, if and only if every
pop brings back the list that was put aside first of all. -/
theorem stack_iff (bans : List Netban) (as : List Action) :
    (∀ bs cs, as = bs ++ cs →
      (Machine.run step ⟨bans, []⟩ bs).netbans =
        (Machine.run Saved.step ⟨bans, [], none⟩ bs).netbans) ↔
      Along FirstPushed Saved.step ⟨bans, [], none⟩ as := by
  refine agree_iff_along (R := Related) (fun s t h => h.netbans)
    (fun s t a h hok => h.step a hok) (fun s t a h hbad hsame => hbad ?_) ⟨rfl, rfl⟩ as
  cases a with
  | popBans => exact h.pop_iff.mp hsame
  | pushBans => trivial
  | addBan addr persist reason => trivial
  | delBan addr => trivial
  | clearBans => trivial
  | checkBan ip now => trivial

/-- A ban is added and put aside, then another one, and one list is to come back. -/
def nestedPushes : List Action :=
  [.addBan (some ⟨0x0A000000, 16⟩) false [], .pushBans,
    .addBan (some ⟨0x0B000000, 16⟩) false [], .pushBans, .popBans]

/-- The first list comes back, and not the second one. -/
theorem outer_popped :
    (Machine.run step ⟨[], []⟩ nestedPushes).netbans ≠
      (Machine.run Saved.step ⟨[], [], none⟩ nestedPushes).netbans := by
  decide

end NetBans

end Zuckerserv
