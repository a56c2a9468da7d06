import Zuckerserv.Fps.Combat
import Zuckerserv.Lib.Machine

/-!
# The entities of the map

`sents`, the entities that the server knows, and `sents_type_index`, the last one of each type.
Clients send the list of the items (`N_ITEMLIST`), change entities (`N_EDITENT`) and pick up items
(`N_ITEMPICKUP`); what they send are any integers.

* `Entities`, `Entity` — the entities and what decides on them.
* `additem`, `itemlist`, `editent`, `pickup` — the code, with the places it looks at.
* `antiCheatItemlist`, `antiCheatItempickup` — the checks of `fpsgame/anticheat.h`.
* `Access.valid` — a place is there.
* `messageAccesses_iff`, `entity_accesses_iff` — when the places of a message, and of all messages
  of a run, are there.
* `negative_entity` — a message that looks before the list of the entities.
-/

namespace Zuckerserv

open Game (GameState PlayState)
open IntIndex (Inrange item)

/-- `entity`. -/
structure Entities.Entity where
  type : Int32
  spawntime : Int32
  spawned : Bool
  lastpickup : Int32
  deriving DecidableEq

/-- The fields of `clientinfo` that are used. -/
structure Entities.Client where
  state : GameState
  privilege : Bool
  islocal : Bool
  /-- `!strcmp(ci->clientmap, smapname)`. -/
  samemap : Bool
  /-- The messages that have been counted since the last world state. -/
  overflow : Int32

/-- The entities, with the mode, the clocks and the clients. -/
structure Entities where
  sents : List Entities.Entity
  sentsTypeIndex : Nat → Int32
  notgotitems : Bool
  mNoitems : Bool
  mNoammo : Bool
  mMp : Bool
  mEdit : Bool
  mTimed : Bool
  mClassicsp : Bool
  gamemillis : Int32
  gamelimit : Int32
  totalmillis : Int32
  /-- `numclients(-1, true, false, false)`. -/
  numclients : Int32
  /-- `getinfo`. -/
  info : Nat → Option Entities.Client

namespace Entities

/-- The number of a client. -/
abbrev Cn := Nat

/-- `MAXENTS`. -/
def MAXENTS : Int32 := 10000

/-- `MAXENTTYPES`. -/
def MAXENTTYPES : Nat := 31

/-- `I_SHELLS`, the first item. -/
def I_SHELLS : Int32 := 8

/-- `I_CARTRIDGES`, the last ammunition. -/
def I_CARTRIDGES : Int32 := 13

/-- `I_QUAD`, the last item. -/
def I_QUAD : Int32 := 18

/-! ## Places -/

/-- A place that is looked at. -/
inductive Access
  /-- `sents[i]`, of so many. -/
  | entity (i : Int32) (length : Nat)
  /-- `sents_type_index[type]`; the type is unsigned. -/
  | index (type : Int32)
  deriving DecidableEq

/-- The place is there. -/
def Access.valid : Access → Prop
  | .entity i length => 0 ≤ i ∧ i.toInt < length
  | .index type => type.toUInt32.toNat < MAXENTTYPES

instance : (a : Access) → Decidable a.valid
  | .entity i length => inferInstanceAs (Decidable (0 ≤ i ∧ i.toInt < length))
  | .index type => inferInstanceAs (Decidable (type.toUInt32.toNat < MAXENTTYPES))

/-! ## Items -/

/-- `bool canspawnitem(int type)`. -/
def canspawnitem (s : Entities) (type : Int32) : Bool :=
  !s.mNoitems && (I_SHELLS ≤ type && type ≤ I_QUAD &&
    (!s.mNoammo || type < I_SHELLS || type > I_CARTRIDGES))

/-- `bool delayspawn(int type)`. -/
def delayspawn (s : Entities) (type : Int32) : Bool :=
  match Game.Item.ofInt type with
  | some .GREENARMOUR => !s.mClassicsp
  | some .YELLOWARMOUR => !s.mClassicsp
  | some .BOOST => true
  | some .QUAD => true
  | _ => false

/-- `int spawntime(int type)`. -/
def spawntime (s : Entities) (type : Int32) : Int32 :=
  if s.mClassicsp then Int32.maxValue
  else
    let np := if s.numclients < 3 then 4 else if s.numclients > 4 then 2 else 3
    let sec := match Game.Item.ofInt type with
      | none => 0
      | some .HEALTH => np * 5
      | some .GREENARMOUR => 20
      | some .YELLOWARMOUR => 30
      | some .BOOST => 60
      | some .QUAD => 70
      | some _ => np * 4
    sec * 1000

/-- `while(sents.length()<=n) sents.add(se)`. -/
def grow (l : List Entity) (n : Int32) (se : Entity) : List Entity :=
  l ++ List.replicate (n.toInt + 1 - l.length).toNat se

/-- One entry of `N_ITEMLIST`. -/
def additem (s : Entities) (n type : Int32) : Entities × List Access :=
  let sents := grow s.sents n ⟨0, 0, false, -1⟩
  let set (e : Entity) : Entity :=
    let e := { e with type := type }
    if s.canspawnitem type then
      if s.mMp && s.delayspawn type then { e with spawntime := s.spawntime type }
      else { e with spawned := true }
    else e
  ({ s with
    sents := sents.modify n.toInt.toNat set
    sentsTypeIndex := Function.update s.sentsTypeIndex type.toUInt32.toNat n },
    [.entity n sents.length, .index type])

/-- An entry is the last: `!(n>=0 && n<MAXENTS)`. -/
def ends (n : Int32) : Bool := n < 0 || n ≥ MAXENTS

/-- The loop of `N_ITEMLIST`, over the integers that are left. At the end of the packet `getint`
gives 0, and the loop ends when it asks for another number. -/
def itemlist (s : Entities) : List Int32 → Entities × List Access
  | [] => (s, [])
  | [n] => if ends n then (s, []) else s.additem n 0
  | n :: type :: rest =>
    if ends n then (s, [])
    else
      let (s, accesses) := s.additem n type
      let (s, more) := s.itemlist rest
      (s, accesses ++ more)

/-- The list of a client is read only to skip it. -/
def refuses (s : Entities) (ci : Client) : Bool :=
  (ci.state.state = .SPECTATOR && !ci.privilege && !ci.islocal) || !s.notgotitems || !ci.samemap

/-- `checktype` for a client that is connected: entities are edited in coop edit only, and the
200th message that is counted is not let in. -/
def checktype (s : Entities) (ci : Client) (edits : Bool) : Bool :=
  ci.islocal || if edits then s.mEdit else ci.overflow + 1 < 200

/-- `N_EDITENT`, when it is allowed. -/
def editent (s : Entities) (i type : Int32) : Entities × List Access :=
  let canspawn := s.canspawnitem type
  if i < MAXENTS ∧ (Inrange s.sents i ∨ canspawn) then
    let sents := grow s.sents i ⟨0, 0, false, 0⟩
    let set (e : Entity) : Entity :=
      let e := { e with type := type }
      if (if canspawn then !e.spawned else e.spawned || e.spawntime ≠ 0) then
        { e with spawntime := if canspawn then 1 else 0, spawned := false }
      else e
    ({ s with sents := sents.modify i.toInt.toNat set }, [.entity i sents.length])
  else (s, [])

/-- `bool pickup(int i, int sender)`. -/
def pickup (s : Entities) (i : Int32) (sender : Cn) : Entities × List Access :=
  if s.mTimed ∧ s.gamemillis ≥ s.gamelimit then (s, [])
  else
    match item s.sents i with
    | none => (s, [])
    | some e =>
      (match s.info sender with
        | some ci =>
          if ¬ e.spawned ∨ ¬ ci.islocal ∧ ¬ ci.state.canpickup e.type then s
          else { s with
            sents := s.sents.set i.toInt.toNat { e with
              spawned := false
              spawntime := s.spawntime e.type
              lastpickup := s.totalmillis }
            info := Function.update s.info sender
              (some { ci with state := ci.state.pickup e.type }) }
        | none => s, [.entity i s.sents.length])

/-! ## The checks against cheating -/

/-- `N_ITEMLIST` in `anti_cheat_parsepacket`: the list is compared with the one that is known. -/
def antiCheatItemlist (s : Entities) : List Int32 → List Access
  | [] => []
  | [n] => if ends n ∨ ¬ Inrange s.sents n then [] else [.entity n s.sents.length]
  | n :: type :: rest =>
    if ends n then []
    else
      match item s.sents n with
      | none => []
      | some e =>
        .entity n s.sents.length :: if e.type ≠ type then [] else s.antiCheatItemlist rest

/-- `N_ITEMPICKUP` in `anti_cheat_parsepacket`. -/
def antiCheatItempickup (s : Entities) (n : Int32) : List Access :=
  if Inrange s.sents n then [.entity n s.sents.length] else []

/-! ## Messages -/

/-- What clients send. -/
inductive Message
  /-- `N_ITEMLIST`, with the integers up to the end of the packet. -/
  | itemlist (ci : Client) (list : List Int32)
  /-- `N_EDITENT`; `prevented` is the answer of `event_editpacket`. -/
  | editent (ci : Client) (i type : Int32) (prevented : Bool)
  /-- `N_ITEMPICKUP`. -/
  | itempickup (n : Int32)
  /-- The event of an `N_ITEMPICKUP` is processed. -/
  | pickup (i : Int32) (sender : Cn)

/-- One message; `anti_cheat_enabled` says that the checks are made. -/
def handle (antiCheatEnabled : Bool) (s : Entities) : Message → Entities × List Access
  | .itemlist ci list =>
    let checks := if antiCheatEnabled ∧ ¬ s.notgotitems ∧ ¬ s.mEdit then
      s.antiCheatItemlist list else []
    if s.checktype ci false = false ∨ s.refuses ci then (s, checks)
    else
      let (s, accesses) := s.itemlist list
      ({ s with notgotitems := false }, checks ++ accesses)
  | .editent ci i type prevented =>
    if s.checktype ci true = false ∨ ci.state.state = .SPECTATOR ∨ prevented then (s, [])
    else s.editent i type
  | .itempickup n => (s, if antiCheatEnabled then s.antiCheatItempickup n else [])
  | .pickup i sender => s.pickup i sender

/-- The entities after a message. -/
def next (antiCheatEnabled : Bool) (s : Entities) (m : Message) : Entities :=
  (s.handle antiCheatEnabled m).1

/-! ## When the places are there -/

variable {s : Entities}

theorem length_grow (l : List Entity) {n : Int32} (hn : 0 ≤ n) (se : Entity) :
    n.toInt < (grow l n se).length := by
  have hpos : 0 ≤ n.toInt := Int32.le_iff_toInt_le.mp hn
  unfold grow
  rw [List.length_append, List.length_replicate]
  omega

/-- An entity that is not before the list is there when the list has grown. -/
theorem entity_valid_iff (l : List Entity) (n : Int32) (se : Entity) :
    (Access.entity n (grow l n se).length).valid ↔ 0 ≤ n :=
  ⟨fun h => h.1, fun h => ⟨h, length_grow l h se⟩⟩

theorem index_valid_iff (type : Int32) :
    (Access.index type).valid ↔ 0 ≤ type ∧ type.toInt < MAXENTTYPES := by
  show type.toBitVec.toNat < 31 ↔ _
  rw [Int32.le_iff_toInt_le]
  show _ ↔ (0 : Int) ≤ type.toBitVec.toInt ∧ type.toBitVec.toInt < 31
  have hlt := type.toBitVec.isLt
  rw [BitVec.toInt_eq_toNat_cond]
  split <;> omega

theorem ends_eq_false {n : Int32} (h : ends n = false) : 0 ≤ n := by
  unfold ends at h
  simp only [Bool.or_eq_false_iff, decide_eq_false_iff_not] at h
  exact Int32.not_lt.mp h.1

/-- The types of the entries that are read. -/
def types : List Int32 → List Int32
  | [] => []
  | [n] => if ends n then [] else [0]
  | n :: type :: rest => if ends n then [] else type :: types rest

/-- The type has its place in `sents_type_index`. -/
def Known (type : Int32) : Prop := 0 ≤ type ∧ type.toInt < MAXENTTYPES

theorem additem_valid_iff (s : Entities) {n : Int32} (hn : ends n = false) (type : Int32) :
    (∀ a ∈ (s.additem n type).2, a.valid) ↔ Known type := by
  have hentity := (entity_valid_iff s.sents n ⟨0, 0, false, -1⟩).mpr (ends_eq_false hn)
  show (∀ a ∈ [Access.entity n _, .index type], a.valid) ↔ _
  rw [List.forall_mem_cons, List.forall_mem_singleton, index_valid_iff]
  exact and_iff_right hentity

theorem itemlist_valid_iff (s : Entities) (list : List Int32) :
    (∀ a ∈ (s.itemlist list).2, a.valid) ↔ ∀ type ∈ types list, Known type := by
  fun_induction itemlist s list with
  | case1 => simp [types]
  | case2 s n hend => simp [types, hend]
  | case3 s n hend =>
    rw [additem_valid_iff s (Bool.eq_false_iff.mpr hend)]
    simp [types, hend]
  | case4 s n type rest hend => simp [types, hend]
  | case5 s n type rest hend s' accesses hadd s'' more hrest ih =>
    have hitem := additem_valid_iff s (Bool.eq_false_iff.mpr hend) type
    rw [hadd] at hitem
    rw [hrest] at ih
    unfold types
    rw [if_neg hend, List.forall_mem_append, List.forall_mem_cons]
    exact and_congr hitem ih

theorem editent_valid_iff (s : Entities) (i type : Int32) :
    (∀ a ∈ (s.editent i type).2, a.valid) ↔ (s.canspawnitem type = true → 0 ≤ i) := by
  unfold editent
  dsimp only
  split
  · rename_i hfits
    show (∀ a ∈ [Access.entity i _], a.valid) ↔ _
    rw [List.forall_mem_singleton, entity_valid_iff]
    refine ⟨fun h _ => h, fun h => ?_⟩
    rcases hfits.2 with hrange | hspawns
    · exact hrange.1
    · exact h hspawns
  · rename_i hskips
    refine iff_of_true (fun a ha => absurd ha List.not_mem_nil) fun hspawns => ?_
    have hmax : ¬ i < MAXENTS := fun h => hskips ⟨h, .inr hspawns⟩
    have hle := Int32.le_iff_toInt_le.mp (Int32.not_lt.mp hmax)
    refine Int32.le_iff_toInt_le.mpr ?_
    have hpos : (0 : Int) ≤ MAXENTS.toInt := by decide
    exact Int.le_trans hpos hle

theorem inrange_valid {i : Int32} (h : Inrange s.sents i) :
    (Access.entity i s.sents.length).valid := h

theorem inrange_of_item {i : Int32} {e : Entity} (h : item s.sents i = some e) :
    Inrange s.sents i :=
  (IntIndex.item_isSome s.sents i).mp (Option.isSome_iff_exists.mpr ⟨e, h⟩)

theorem pickup_valid (s : Entities) (i : Int32) (sender : Cn) :
    ∀ a ∈ (s.pickup i sender).2, a.valid := by
  unfold pickup
  split
  · exact fun a ha => absurd ha List.not_mem_nil
  · cases hitem : item s.sents i with
    | none => exact fun a ha => absurd ha List.not_mem_nil
    | some e => exact List.forall_mem_singleton.mpr (inrange_valid (inrange_of_item hitem))

theorem antiCheatItemlist_valid (s : Entities) (list : List Int32) :
    ∀ a ∈ s.antiCheatItemlist list, a.valid := by
  fun_induction antiCheatItemlist s list with
  | case1 => exact fun a ha => absurd ha List.not_mem_nil
  | case2 => exact fun a ha => absurd ha List.not_mem_nil
  | case3 n hfits =>
    exact List.forall_mem_singleton.mpr (inrange_valid (not_not.mp (not_or.mp hfits).2))
  | case4 => exact fun a ha => absurd ha List.not_mem_nil
  | case5 => exact fun a ha => absurd ha List.not_mem_nil
  | case6 n type rest hend e hitem ih =>
    refine List.forall_mem_cons.mpr ⟨inrange_valid (inrange_of_item hitem), ?_⟩
    split
    · exact fun a ha => absurd ha List.not_mem_nil
    · exact ih

theorem antiCheatItempickup_valid (s : Entities) (n : Int32) :
    ∀ a ∈ s.antiCheatItempickup n, a.valid := by
  unfold antiCheatItempickup
  split
  · rename_i hrange
    exact List.forall_mem_singleton.mpr (inrange_valid hrange)
  · exact fun a ha => absurd ha List.not_mem_nil

/-- The message asks for nothing that is not there: a list that is accepted has known types only,
and an entity that is changed into an item has no negative number. -/
def Proper (s : Entities) : Message → Prop
  | .itemlist ci list => s.checktype ci false = true → s.refuses ci = false →
    ∀ type ∈ types list, Known type
  | .editent ci i type prevented => s.checktype ci true = true → ci.state.state ≠ .SPECTATOR →
    prevented = false → s.canspawnitem type = true → 0 ≤ i
  | .itempickup _ => True
  | .pickup .. => True

/-- The places of a message are there if and only if it is proper. -/
theorem messageAccesses_iff (antiCheatEnabled : Bool) (s : Entities) (m : Message) :
    (∀ a ∈ (s.handle antiCheatEnabled m).2, a.valid) ↔ s.Proper m := by
  cases m with
  | itemlist ci list =>
    have hchecks : ∀ a ∈ (if antiCheatEnabled ∧ ¬ s.notgotitems ∧ ¬ s.mEdit then
        s.antiCheatItemlist list else []), a.valid := by
      split
      · exact antiCheatItemlist_valid s list
      · exact fun a ha => absurd ha List.not_mem_nil
    unfold handle Proper
    dsimp only
    split
    · rename_i hrefused
      refine iff_of_true hchecks fun hlets haccepts => ?_
      rcases hrefused with h | h
      · exact absurd (h.symm.trans hlets) (by decide)
      · exact absurd (h.symm.trans haccepts) (by decide)
    · rename_i haccepts
      obtain ⟨hlets, haccepts⟩ := not_or.mp haccepts
      rw [List.forall_mem_append, and_iff_right hchecks, itemlist_valid_iff]
      exact ⟨fun h _ _ => h,
        fun h => h (Bool.not_eq_false _ |>.mp hlets) (Bool.eq_false_iff.mpr haccepts)⟩
  | editent ci i type prevented =>
    unfold handle Proper
    dsimp only
    split
    · rename_i hrefused
      refine iff_of_true (fun a ha => absurd ha List.not_mem_nil) fun hlets hplays hallowed => ?_
      rcases hrefused with h | h | h
      · exact absurd (h.symm.trans hlets) (by decide)
      · exact absurd h hplays
      · exact absurd (hallowed.symm.trans h) (by decide)
    · rename_i hallowed
      obtain ⟨hlets, hallowed⟩ := not_or.mp hallowed
      obtain ⟨hplays, hallowed⟩ := not_or.mp hallowed
      rw [editent_valid_iff]
      exact ⟨fun h _ _ _ => h, fun h =>
        h (Bool.not_eq_false _ |>.mp hlets) hplays (Bool.eq_false_iff.mpr hallowed)⟩
  | itempickup n =>
    refine iff_of_true ?_ trivial
    show ∀ a ∈ (if antiCheatEnabled then s.antiCheatItempickup n else []), a.valid
    split
    · exact antiCheatItempickup_valid s n
    · exact fun a ha => absurd ha List.not_mem_nil
  | pickup i sender => exact iff_of_true (pickup_valid s i sender) trivial

/-- **The places of all messages of a run are there if and only if the messages are proper.** -/
theorem entity_accesses_iff (antiCheatEnabled : Bool) (s₀ : Entities) (ms : List Message) :
    (∀ bs m cs, ms = bs ++ m :: cs →
      ∀ a ∈ ((Machine.run (next antiCheatEnabled) s₀ bs).handle antiCheatEnabled m).2,
        a.valid) ↔ Machine.Along Proper (next antiCheatEnabled) s₀ ms := by
  rw [Machine.along_iff]
  exact forall_congr' fun bs => forall_congr' fun m => forall_congr' fun cs =>
    imp_congr_right fun _ => messageAccesses_iff antiCheatEnabled _ m

/-- Coop edit, before anybody has sent their list of items. -/
def bareMap : Entities where
  sents := []
  sentsTypeIndex _ := 0
  notgotitems := true
  mNoitems := false
  mNoammo := false
  mMp := true
  mEdit := true
  mTimed := false
  mClassicsp := false
  gamemillis := 0
  gamelimit := 0
  totalmillis := 0
  numclients := 1
  info _ := none

/-- A player with the map. -/
def editor : Client := ⟨GameState.spawned, false, false, true, 0⟩

/-- A player who makes an item of the entity with the number -1. -/
theorem negative_entity : ¬ ∀ (antiCheatEnabled : Bool) (s₀ : Entities) (ms bs : List Message)
    (m : Message) (cs : List Message), ms = bs ++ m :: cs →
      ∀ a ∈ ((Machine.run (next antiCheatEnabled) s₀ bs).handle antiCheatEnabled m).2,
        a.valid := by
  intro h
  have hvalid := h true bareMap _ [] (.editent editor (-1) I_SHELLS false) [] rfl
  exact absurd hvalid (by decide)

end Entities

end Zuckerserv
