import Mathlib.Algebra.Order.Group.Int
import Zuckerserv.Lib.Machine

/-!
# Reserved slots

A client that knows the password of the reserved slots is let in by taking one of them, and the
server grows by a slot when it is full. What was taken is given back as the clients leave.

* `allowconnect`, `connected`, `clientdisconnect` — the door.
* `Door.Plain` — a request that no special admission is made for.
* `Balanced` — how the counters stand to each other.
* `slots_balanced` — they do so in every run.
-/

namespace Zuckerserv

namespace Reserved

open Machine

/-! ## The server at the door -/

/-- What a client keeps for the door. -/
structure Info where
  clientnum : Int
  /-- `state.aitype != AI_NONE`. -/
  bot : Bool
  usingReservedslot : Bool

/-- The clients, and those that are waiting for admission. -/
structure Server where
  clients : List Info
  connects : List Info
  maxclients : Int
  reservedslots : Int
  reservedslotsUse : Int

/-- Why a client is turned away; `none` for `DISC_NONE`. -/
inductive Disc
  | PRIVATE
  | IPBAN
  | MAXCLIENTS

/-- What else `allowconnect` reads at one request. -/
structure Door where
  /-- `m_mp(gamemode)`. -/
  mp : Bool
  slotpass : String
  serverpass : String
  pwd : String
  /-- `checkpassword(ci, wanted, given)`. -/
  checkpassword : String → String → Bool
  /-- A listener of `event_connecting` prevents the admission. -/
  banned : Bool
  /-- `ci->spy`, as the listeners leave it. -/
  spy : Bool
  /-- `ci->privilege == PRIV_ADMIN`, as the listeners leave it. -/
  isAdmin : Bool
  spies : Int
  specSlots : Bool
  specCount : Int
  mastermode : Int
  /-- `allowedips.find(ip) >= 0`. -/
  allowedip : Bool

/-- `MM_PRIVATE`. -/
def MM_PRIVATE : Int := 3

/-- `numclients(-1, false, true)`. -/
def Server.numclients (s : Server) (spies : Int) : Int :=
  (s.clients.countP fun ci => !ci.bot : Nat) - spies

/-- `allowconnect(ci, pwd)`: the server after it, and whether `ci` takes a reserved slot; or why
it is turned away. -/
def allowconnect (s : Server) (d : Door) : Except Disc (Server × Bool) :=
  if ¬ d.mp then .error .PRIVATE
  else
    let clientcount := s.numclients d.spies
    let is_reserved := d.slotpass ≠ "" ∧ d.checkpassword d.slotpass d.pwd
    if d.banned then .error .IPBAN
    else if (d.isAdmin ∨ is_reserved) ∧ s.reservedslots > 0 then
      let s := if clientcount ≥ s.maxclients then
          { s with reservedslotsUse := s.reservedslotsUse + 1, maxclients := s.maxclients + 1 }
        else s
      .ok ({ s with reservedslots := s.reservedslots - 1 }, true)
    else
      let spy_count := d.spies
      let maxclients_ := s.maxclients
      let maxclients_ := if d.specSlots then maxclients_ + d.specCount else maxclients_
      let spy_count := if d.spy then spy_count + 1 else spy_count
      if clientcount ≥ maxclients_ + spy_count then .error .MAXCLIENTS
      else if d.serverpass ≠ "" then
        if ¬ d.checkpassword d.serverpass d.pwd then .error .PRIVATE else .ok (s, false)
      else if d.mastermode ≥ MM_PRIVATE ∧ ¬ d.allowedip then .error .PRIVATE
      else .ok (s, false)

/-- The client is the one with the number `n`, which is a bot or not. -/
def numbered (n : Int) (bot : Bool) (ci : Info) : Bool := ci.clientnum == n && ci.bot == bot

/-- The client `n` is taken off the list. -/
def remove (l : List Info) (n : Int) (bot : Bool) : List Info := l.eraseP (numbered n bot)

/-- `connected(ci)`. -/
def connected (s : Server) (ci : Info) : Server :=
  { s with connects := remove s.connects ci.clientnum false, clients := s.clients ++ [ci] }

/-- `clientdisconnect(n, reason)`. -/
def clientdisconnect (s : Server) (n : Int) : Server :=
  match s.clients.find? (numbered n false) with
  | none => { s with connects := remove s.connects n false }
  | some ci =>
    let maxclients := s.maxclients - if s.reservedslotsUse > 0 then 1 else 0
    let reservedslotsUse := s.reservedslotsUse - if s.reservedslotsUse > 0 then 1 else 0
    let reservedslots := s.reservedslots + if ci.usingReservedslot then 1 else 0
    { s with
      clients := remove s.clients n false
      maxclients := maxclients
      reservedslotsUse := reservedslotsUse
      reservedslots := reservedslots }

/-- The case `N_CONNECT` from a client that is not connected: who is turned away is
disconnected. -/
def connect (s : Server) (n : Int) (d : Door) : Server :=
  match s.connects.find? (numbered n false) with
  | none => s
  | some ci =>
    match allowconnect s d with
    | .error _ => clientdisconnect s n
    | .ok (s, reserved) => connected s { ci with usingReservedslot := reserved }

/-- What happens at the door. -/
inductive Action
  /-- A peer connects, and gets the free number `n`. -/
  | clientconnect (n : Int)
  | connect (n : Int) (d : Door)
  | disconnect (n : Int)
  | addai (n : Int)
  | deleteai (n : Int)

/-- One step of the server. -/
def step (s : Server) : Action → Server
  | .clientconnect n =>
    if (s.clients ++ s.connects).any (numbered n false) then s
    else { s with connects := s.connects ++ [⟨n, false, false⟩] }
  | .connect n d => connect s n d
  | .disconnect n => clientdisconnect s n
  | .addai n => { s with clients := s.clients ++ [⟨n, true, false⟩] }
  | .deleteai n => { s with clients := remove s.clients n true }

/-- A request that neither spies nor the slots of spectators are in play for. -/
def Door.Plain (d : Door) : Prop := d.spy = false ∧ d.spies = 0 ∧ d.specSlots = false

/-- A step with plain requests only. -/
def Action.Plain : Action → Prop
  | .connect _ d => d.Plain
  | _ => True

/-! ## The counters -/

/-- The clients that take a reserved slot. -/
def Server.reserved (s : Server) : Int := (s.clients.countP (·.usingReservedslot) : Nat)

/-- The counters, on a server that began with `m` slots and `r` reserved ones. -/
structure Balanced (m r : Int) (s : Server) : Prop where
  /-- No bot takes a reserved slot, and none waits. -/
  bots : ∀ ci ∈ s.clients, ci.bot = true → ci.usingReservedslot = false
  waiting : ∀ ci ∈ s.connects, ci.bot = false
  size : s.maxclients - s.reservedslotsUse = m
  slots : s.reservedslots + s.reserved = r
  use_nonneg : 0 ≤ s.reservedslotsUse
  use_le : s.reservedslotsUse ≤ s.reserved
  slots_nonneg : 0 ≤ s.reservedslots
  count_le : s.numclients 0 ≤ s.maxclients

variable {l : List Info} {n m r : Int} {bot : Bool} {ci : Info} {s : Server}

theorem numbered_iff : numbered n bot ci = true ↔ ci.clientnum = n ∧ ci.bot = bot := by
  rw [numbered, Bool.and_eq_true, beq_iff_eq, beq_iff_eq]

theorem mem_remove (h : ci ∈ remove l n bot) : ci ∈ l := List.mem_of_mem_eraseP h

/-- Taking a client off the list takes it out of every count. -/
theorem countP_remove (p : Info → Bool) (h : l.find? (numbered n bot) = some ci) :
    (remove l n bot).countP p + (if p ci then 1 else 0) = l.countP p := by
  induction l with
  | nil => exact absurd h (by simp)
  | cons c l ih =>
    unfold remove at ih ⊢
    rw [List.find?_cons] at h
    rw [List.eraseP_cons]
    cases hc : numbered n bot c with
    | true =>
      rw [hc] at h
      cases h
      rw [cond_true, List.countP_cons]
    | false =>
      rw [hc] at h
      rw [cond_false, List.countP_cons, List.countP_cons, ← ih h]
      omega

theorem countP_concat (p : Info → Bool) :
    (l ++ [ci]).countP p = l.countP p + if p ci then 1 else 0 := by
  rw [List.countP_append, List.countP_singleton]

/-- What the two counts become when the client `ci` comes: one more in each it belongs to. -/
theorem counts_concat (l : List Info) (ci : Info) (hbot : ci.bot = false) :
    ((l ++ [ci]).countP (·.usingReservedslot) : Int) =
      l.countP (·.usingReservedslot) + (if ci.usingReservedslot then 1 else 0) ∧
    (l ++ [ci]).countP (fun ci => !ci.bot) = l.countP (fun ci => !ci.bot) + 1 := by
  rw [countP_concat, countP_concat, hbot]
  refine ⟨?_, rfl⟩
  split <;> rfl

/-- As many clients at most take a reserved slot as there are clients that are no bots. -/
theorem Balanced.reserved_le (h : Balanced m r s) : s.reserved ≤ s.numclients 0 := by
  have hle : s.clients.countP (·.usingReservedslot) ≤ s.clients.countP fun ci => !ci.bot := by
    refine List.countP_mono_left fun ci hci hslot => ?_
    cases hbot : ci.bot with
    | false => rfl
    | true => exact absurd (h.bots ci hci hbot) (by rw [hslot]; exact Bool.noConfusion)
  unfold Server.reserved Server.numclients
  omega

/-! ## One step -/

/-- A client that leaves gives back what was taken for it. -/
theorem Balanced.clientdisconnect (h : Balanced m r s) (n : Int) :
    Balanced m r (clientdisconnect s n) := by
  obtain ⟨hbots, hwaiting, hsize, hslots, hnonneg, hle, hfree, hcount⟩ := h
  unfold Reserved.clientdisconnect
  cases hfind : s.clients.find? (numbered n false) with
  | none => exact ⟨hbots, fun ci hci => hwaiting ci (mem_remove hci), hsize, hslots, hnonneg, hle,
      hfree, hcount⟩
  | some ci =>
    have hbot : ci.bot = false := (numbered_iff.mp (List.find?_some hfind)).2
    have hreserved := countP_remove (·.usingReservedslot) hfind
    have hhumans := countP_remove (fun ci => !ci.bot) hfind
    rw [hbot, Bool.not_false, if_pos rfl] at hhumans
    unfold Server.reserved at hslots hle
    unfold Server.numclients at hcount
    have hgive : (0 : Int) ≤ if ci.usingReservedslot then 1 else 0 := by split <;> decide
    have hreserved : ((remove s.clients n false).countP (·.usingReservedslot) : Int) +
        (if ci.usingReservedslot then 1 else 0) = s.clients.countP (·.usingReservedslot) := by
      rw [← hreserved]
      split <;> rfl
    generalize hg : (if ci.usingReservedslot then (1 : Int) else 0) = give at hgive hreserved
    refine ⟨fun c hc => hbots c (mem_remove hc), hwaiting, ?_, ?_, ?_, ?_, ?_, ?_⟩
    all_goals
      dsimp only [Server.reserved, Server.numclients]
      omega

/-- Who is let in: to a reserved slot, for which the server grows when it is full; or because
there is room. -/
theorem allowconnect_ok {d : Door} {s' : Server} {reserved : Bool} (hd : d.Plain)
    (h : allowconnect s d = .ok (s', reserved)) :
    (reserved = true ∧ s.reservedslots > 0 ∧
      ((s.numclients 0 ≥ s.maxclients ∧
        s' = { s with
          reservedslotsUse := s.reservedslotsUse + 1
          maxclients := s.maxclients + 1
          reservedslots := s.reservedslots - 1 }) ∨
      (s.numclients 0 < s.maxclients ∧ s' = { s with reservedslots := s.reservedslots - 1 }))) ∨
    (reserved = false ∧ s.numclients 0 < s.maxclients ∧ s' = s) := by
  obtain ⟨hspy, hspies, hspec⟩ := hd
  unfold allowconnect at h
  dsimp only at h
  rw [hspy, hspies, hspec, if_neg Bool.false_ne_true, if_neg Bool.false_ne_true,
    Int.add_zero] at h
  split at h
  · cases h
  · split at h
    · cases h
    · split at h
      · rename_i hfree
        left
        cases h
        refine ⟨rfl, hfree.2, ?_⟩
        split
        · rename_i hfull
          exact .inl ⟨hfull, rfl⟩
        · rename_i hroom
          exact .inr ⟨Int.not_le.mp hroom, rfl⟩
      · right
        split at h
        · cases h
        · rename_i hroom
          have hok : s' = s ∧ reserved = false := by
            split at h <;> split at h <;> cases h <;> exact ⟨rfl, rfl⟩
          exact ⟨hok.2, Int.not_le.mp hroom, hok.1⟩

/-- A request keeps the counters balanced. -/
theorem Balanced.connect {d : Door} (h : Balanced m r s) (hd : d.Plain) (n : Int) :
    Balanced m r (connect s n d) := by
  unfold Reserved.connect
  split
  · exact h
  · rename_i ci hwait
    have hbot : ci.bot = false := h.waiting ci (List.mem_of_find?_eq_some hwait)
    split
    · exact h.clientdisconnect n
    · rename_i s' reserved hallow
      obtain ⟨hbots, hwaiting, hsize, hslots, hnonneg, hle, hfree, hcount⟩ := h
      obtain ⟨hreserved, hhumans⟩ :=
        counts_concat s.clients { ci with usingReservedslot := reserved } hbot
      unfold Server.reserved at hslots hle
      have hnum : s.numclients 0 = (s.clients.countP (fun ci => !ci.bot) : Nat) := Int.sub_zero _
      have hbots' : ∀ c ∈ s.clients ++ [{ ci with usingReservedslot := reserved }],
          c.bot = true → c.usingReservedslot = false := by
        intro c hc hcbot
        rcases List.mem_append.mp hc with hc | hc
        · exact hbots c hc hcbot
        · rw [List.mem_singleton.mp hc] at hcbot
          exact absurd hcbot (by rw [hbot]; exact Bool.false_ne_true)
      have hwaiting' : ∀ c ∈ remove s.connects ci.clientnum false, c.bot = false :=
        fun c hc => hwaiting c (mem_remove hc)
      rcases allowconnect_ok hd hallow with
        ⟨rfl, hslot, ⟨hfull, rfl⟩ | ⟨hroom, rfl⟩⟩ | ⟨rfl, hroom, rfl⟩
      all_goals
        simp only [if_true, Bool.false_eq_true, if_false] at hreserved
        refine ⟨hbots', hwaiting', ?_, ?_, ?_, ?_, ?_, ?_⟩ <;>
          dsimp only [Server.reserved, Server.numclients, connected] <;> omega

/-- A change that is about bots only. -/
theorem Balanced.keeps_bots (h : Balanced m r s)
    (hbots : ∀ ci ∈ l, ci.bot = true → ci.usingReservedslot = false)
    (hcount : ∀ p : Info → Bool, (∀ ci, ci.bot = true → ci.usingReservedslot = false →
      p ci = false) → l.countP p = s.clients.countP p) :
    Balanced m r { s with clients := l } := by
  have hreserved := hcount (·.usingReservedslot) fun _ _ h => h
  have hhumans := hcount (fun ci => !ci.bot) fun _ h _ => by rw [h]; rfl
  obtain ⟨-, hwaiting, hsize, hslots, hnonneg, hle, hfree, hcount⟩ := h
  unfold Server.reserved at hslots hle
  unfold Server.numclients at hcount
  refine ⟨hbots, hwaiting, hsize, ?_, hnonneg, ?_, hfree, ?_⟩ <;>
    dsimp only [Server.reserved, Server.numclients] <;> omega

theorem Balanced.step (h : Balanced m r s) (a : Action) (ha : a.Plain) :
    Balanced m r (step s a) := by
  cases a with
  | connect n d => exact h.connect ha n
  | disconnect n => exact h.clientdisconnect n
  | clientconnect n =>
    unfold Reserved.step
    dsimp only
    split
    · exact h
    · refine { h with waiting := fun ci hci => ?_ }
      rcases List.mem_append.mp hci with hci | hci
      · exact h.waiting ci hci
      · rw [List.mem_singleton.mp hci]
  | addai n =>
    refine h.keeps_bots (fun ci hci hbot => ?_) (fun p hp => ?_)
    · rcases List.mem_append.mp hci with hci | hci
      · exact h.bots ci hci hbot
      · rw [List.mem_singleton.mp hci]
    · rw [countP_concat, hp ⟨n, true, false⟩ rfl rfl]
      rfl
  | deleteai n =>
    refine h.keeps_bots (fun ci hci => h.bots ci (mem_remove hci)) (fun p hp => ?_)
    cases hfind : s.clients.find? (numbered n true) with
    | none =>
      have hsame : remove s.clients n true = s.clients :=
        List.eraseP_of_forall_not fun ci hci => List.find?_eq_none.mp hfind ci hci
      rw [hsame]
    | some ci =>
      have hcount := countP_remove p hfind
      have hbot : ci.bot = true := (numbered_iff.mp (List.find?_some hfind)).2
      rw [hp ci hbot (h.bots ci (List.mem_of_find?_eq_some hfind) hbot)] at hcount
      exact hcount

/-! ## Every run -/

/-- A server before anyone has come. -/
def start (maxclients reservedslots : Int) : Server := ⟨[], [], maxclients, reservedslots, 0⟩

/-- In every run the counters stand to each other as they did in the beginning, and there are
never more clients than slots. -/
theorem slots_balanced {m r : Int} (hm : 0 ≤ m) (hr : 0 ≤ r) (as : List Action)
    (has : ∀ a ∈ as, a.Plain) : let s := Machine.run step (start m r) as
    s.maxclients - s.reservedslotsUse = m ∧ s.reservedslots + s.reserved = r ∧
      0 ≤ s.reservedslotsUse ∧ s.reservedslotsUse ≤ s.reserved ∧ 0 ≤ s.reservedslots ∧
      s.numclients 0 ≤ s.maxclients ∧
      (s.numclients 0 = 0 → s.maxclients = m ∧ s.reservedslots = r) := by
  intro s
  have hstart : Balanced m r (start m r) :=
    ⟨fun _ h => absurd h List.not_mem_nil, fun _ h => absurd h List.not_mem_nil, Int.sub_zero m,
      Int.add_zero r, Int.le_refl 0, Int.le_refl 0, hr, hm⟩
  have hs : Balanced m r s := (Along.of_forall has).inv (fun s a ha hs => hs.step a ha) hstart
  have hle := hs.reserved_le
  obtain ⟨-, -, hsize, hslots, hnonneg, huse, hfree, hcount⟩ := hs
  refine ⟨hsize, hslots, hnonneg, huse, hfree, hcount, fun hnone => ⟨?_, ?_⟩⟩ <;> omega

/-- A request with the password of the reserved slots. -/
def slotRequest : Door where
  mp := true
  slotpass := "slot"
  serverpass := ""
  pwd := "slot"
  checkpassword := fun wanted given => wanted == given
  banned := false
  spy := false
  isAdmin := false
  spies := 0
  specSlots := false
  specCount := 0
  mastermode := 0
  allowedip := false

/-- Two clients come to a server of one slot and one reserved slot, and leave in the order they
came in. -/
def visit : List Action :=
  [.clientconnect 0, .connect 0 { slotRequest with pwd := "" }, .clientconnect 1,
    .connect 1 slotRequest, .disconnect 0, .disconnect 1]

/-- Both are let in. -/
example : (Machine.run step (start 1 1) (visit.take 4)).numclients 0 = 2 := by decide +kernel

theorem slots_balanced_visit :
    (Machine.run step (start 1 1) visit).maxclients = 1 ∧
      (Machine.run step (start 1 1) visit).reservedslots = 1 := by
  have hplain : ∀ a ∈ visit, a.Plain := by
    simp [visit, Action.Plain, Door.Plain, slotRequest]
  exact (slots_balanced (by decide) (by decide) visit hplain).2.2.2.2.2.2 (by decide +kernel)

end Reserved

end Zuckerserv
