import Mathlib.Algebra.Order.Group.Int
import Mathlib.Data.Finset.Card
import Zuckerserv.Lib.Loop
import Zuckerserv.Lib.Machine

/-!
# The client numbers of fake clients

A script takes a number for a client that is not there: the first one that neither a client nor
another fake client has. The search ends at 127, and takes that number whether it is free or not.
The zombies take such numbers, and are counted.

* `getFakeCn`, `freeFakeCn` — a number is taken, and given back.
* `createZombie`, `destroyZombie` — a zombie, with its number.
* `answered_iff` — when the number is right.
* `zombies_counted` — numbers and zombies, in runs that never search a full table.
-/

namespace Zuckerserv

namespace FakeCns

open Loop Machine

/-! ## The code -/

/-- What a slot of the engine is used for. -/
inductive Slot
  | empty
  /-- `ST_TCPIP` or `ST_LOCAL`: there is a client. -/
  | client
  | blocked
  deriving DecidableEq

/-- The slots of the engine, and the variables of the scripts. -/
structure State where
  slots : List Slot
  /-- The numbers for which `players.fake_cns` is set. -/
  fakeCns : Finset Int
  /-- The numbers for which `nm_zombie.instances` is set. -/
  instances : Finset Int
  currentNumberOfZombies : Int

/-- `used_cn(cn)`: there is a client with a session. -/
def usedCn (s : State) (cn : Int) : Bool := 0 ≤ cn ∧ s.slots[cn.toNat]? = some .client

/-- `setclienttype(cn, type)`. A slot that is not there is added at the end. -/
def setclienttype (slots : List Slot) (cn : Int) (type : Slot) : List Slot :=
  if 0 ≤ cn ∧ cn < slots.length then slots.set cn.toNat type else slots ++ [type]

/-- The number is one of a client or of a fake client. -/
def taken (s : State) (cn : Int) : Prop := usedCn s cn ∨ cn ∈ s.fakeCns

instance (s : State) (cn : Int) : Decidable (taken s cn) := inferInstanceAs (Decidable (_ ∨ _))

/-- The `while` loop of `get_fake_cn`. -/
def search (s : State) : Nat :=
  whileDo (fun fcn : Nat => taken s fcn ∧ fcn < 127) (· + 1) 128 0

/-- `players.get_fake_cn()`. -/
def getFakeCn (s : State) : Int × State :=
  let fcn : Int := search s
  if fcn < 128 then
    (fcn, { s with
      fakeCns := insert fcn s.fakeCns, slots := setclienttype s.slots fcn .blocked })
  else (-1, s)

/-- `players.free_fake_cn(fcn)`. -/
def freeFakeCn (s : State) (fcn : Int) : State :=
  if fcn ∈ s.fakeCns then
    { s with fakeCns := s.fakeCns.erase fcn, slots := setclienttype s.slots fcn .empty }
  else s

/-- `nm_zombie.max_number_of_zombies`. -/
def maxNumberOfZombies : Int := 60

/-- `nm_zombie.create_zombie()`. -/
def createZombie (s : State) : State :=
  if s.currentNumberOfZombies ≥ maxNumberOfZombies then s
  else
    let r := getFakeCn s
    { r.2 with
      currentNumberOfZombies := r.2.currentNumberOfZombies + 1
      instances := insert r.1 r.2.instances }

/-- `nm_zombie.destroy_zombie(zcn)`. -/
def destroyZombie (s : State) (zcn : Int) : State :=
  if zcn ∉ s.instances then s
  else
    freeFakeCn { s with
      instances := s.instances.erase zcn
      currentNumberOfZombies := s.currentNumberOfZombies - 1 } zcn

/-- `addclient(type)`: the first empty slot, or a new one. -/
def addclient (slots : List Slot) : List Slot :=
  match slots.findIdx? (· = .empty) with
  | some i => slots.set i .client
  | none => slots ++ [.client]

/-- What happens on the server. -/
inductive Event
  | getFakeCn
  | freeFakeCn (fcn : Int)
  | createZombie
  | destroyZombie (zcn : Int)
  | connect
  | disconnect (cn : Int)

/-- One event. -/
def step (s : State) : Event → State
  | .getFakeCn => (getFakeCn s).2
  | .freeFakeCn fcn => freeFakeCn s fcn
  | .createZombie => createZombie s
  | .destroyZombie zcn => destroyZombie s zcn
  | .connect => { s with slots := addclient s.slots }
  | .disconnect cn =>
    if usedCn s cn then { s with slots := setclienttype s.slots cn .empty } else s

/-- The server at its start. -/
def init : State := ⟨[], ∅, ∅, 0⟩

/-! ## The number -/

/-- There is a number below 128 that is free. -/
def Room (s : State) : Prop := ∃ fcn : Nat, fcn < 128 ∧ ¬ taken s fcn

/-- What an answer of `get_fake_cn` should be: no number, or a free one; and no number when none is
free. -/
def Answered (s : State) (answer : Int) : Prop :=
  (answer = -1 ∨ ¬ taken s answer) ∧ (¬ Room s → answer = -1)

/-- The search stops at a free number, or at the last one. -/
theorem search_spec (s : State) :
    search s ≤ 127 ∧ (¬ taken s (search s) ∨ search s = 127) ∧
      ∀ fcn < search s, taken s fcn := by
  let inv (fcn : Nat) : Prop := fcn ≤ 127 ∧ ∀ k < fcn, taken s k
  have hstep (fcn : Nat) (h : inv fcn) (hc : taken s fcn ∧ fcn < 127) : inv (fcn + 1) := by
    refine ⟨hc.2, fun k hk => ?_⟩
    rcases Nat.lt_succ_iff_lt_or_eq.mp hk with hk | rfl
    · exact h.2 k hk
    · exact hc.1
  have h0 : inv 0 := ⟨by decide, fun k hk => absurd hk (Nat.not_lt_zero k)⟩
  have hinv : inv (search s) := whileDo_inv hstep h0 128
  have hexit : ¬ (taken s (search s) ∧ search s < 127) := by
    refine not_whileDo hstep (fun fcn => 127 - fcn) (fun fcn _ hc => ?_) h0 (by decide)
    have hlt := hc.2
    omega
  refine ⟨hinv.1, ?_, hinv.2⟩
  by_cases htaken : taken s (search s)
  · have hlast : ¬ search s < 127 := fun hlt => hexit ⟨htaken, hlt⟩
    have hle := hinv.1
    exact Or.inr (by omega)
  · exact Or.inl htaken

theorem getFakeCn_eq (s : State) : getFakeCn s = (↑(search s), { s with
    fakeCns := insert ↑(search s) s.fakeCns,
    slots := setclienttype s.slots (search s) .blocked }) := by
  have hle := (search_spec s).1
  have hlt : ((search s : Nat) : Int) < 128 := by omega
  unfold getFakeCn
  rw [if_pos hlt]

/-- Where there is room, the number is free. -/
theorem not_taken_search {s : State} (h : Room s) : ¬ taken s (search s) := by
  obtain ⟨hle, hstop, hbelow⟩ := search_spec s
  rcases hstop with hfree | hlast
  · exact hfree
  · obtain ⟨fcn, hlt, hfree⟩ := h
    have hfcn : fcn = search s := by
      by_contra hne
      exact hfree (hbelow fcn (by omega))
    rwa [← hfcn]

/-- The number is right exactly when there is room. -/
theorem answered_iff (s : State) : Answered s (getFakeCn s).1 ↔ Room s := by
  rw [getFakeCn_eq]
  constructor
  · intro h
    by_contra hroom
    have hanswer : ((search s : Nat) : Int) = -1 := h.2 hroom
    omega
  · exact fun h => ⟨Or.inr (not_taken_search h), fun hroom => absurd h hroom⟩

/-! ## The zombies -/

/-- The zombies are counted, and have numbers of fake clients. -/
structure Counted (s : State) : Prop where
  count : s.currentNumberOfZombies = s.instances.card
  instances_subset : s.instances ⊆ s.fakeCns

/-- There is room for every number that is taken, and no number is given back that a zombie has. -/
def Safe (s : State) : Event → Prop
  | .getFakeCn => Room s
  | .freeFakeCn fcn => fcn ∉ s.instances
  | .createZombie => s.currentNumberOfZombies < maxNumberOfZombies → Room s
  | .destroyZombie _ => True
  | .connect => True
  | .disconnect _ => True

theorem Counted.getFakeCn {s : State} (h : Counted s) : Counted (getFakeCn s).2 := by
  rw [getFakeCn_eq]
  exact ⟨h.count, h.instances_subset.trans (Finset.subset_insert _ _)⟩

theorem Counted.freeFakeCn {s : State} (h : Counted s) {fcn : Int} (hfcn : fcn ∉ s.instances) :
    Counted (freeFakeCn s fcn) := by
  rw [FakeCns.freeFakeCn]
  split_ifs
  · refine ⟨h.count, fun cn hcn => Finset.mem_erase.mpr ⟨?_, h.instances_subset hcn⟩⟩
    rintro rfl
    exact hfcn hcn
  · exact h

theorem createZombie_eq {s : State} (h : s.currentNumberOfZombies < maxNumberOfZombies) :
    createZombie s = {
      slots := setclienttype s.slots (search s) .blocked
      fakeCns := insert ↑(search s) s.fakeCns
      instances := insert ↑(search s) s.instances
      currentNumberOfZombies := s.currentNumberOfZombies + 1 } := by
  rw [createZombie, if_neg (not_le.mpr h), getFakeCn_eq]

/-- A new zombie has a number that no other one has. -/
theorem Counted.createZombie {s : State} (h : Counted s)
    (hroom : s.currentNumberOfZombies < maxNumberOfZombies → Room s) :
    Counted (createZombie s) := by
  by_cases hmax : s.currentNumberOfZombies < maxNumberOfZombies
  · have hfree := not_taken_search (hroom hmax)
    have hnew : ((search s : Nat) : Int) ∉ s.instances := fun hmem =>
      hfree (Or.inr (h.instances_subset hmem))
    have hcount := h.count
    rw [createZombie_eq hmax]
    refine ⟨?_, Finset.insert_subset_insert _ h.instances_subset⟩
    dsimp only
    rw [Finset.card_insert_of_notMem hnew, hcount]
    rfl
  · rw [FakeCns.createZombie, if_pos (not_lt.mp hmax)]
    exact h

theorem Counted.destroyZombie {s : State} (h : Counted s) (zcn : Int) :
    Counted (destroyZombie s zcn) := by
  rw [FakeCns.destroyZombie]
  by_cases hzcn : zcn ∈ s.instances
  · rw [if_neg (not_not.mpr hzcn)]
    have hcard := Finset.card_erase_add_one hzcn
    have hgone : Counted { s with
        instances := s.instances.erase zcn
        currentNumberOfZombies := s.currentNumberOfZombies - 1 } := by
      refine ⟨?_, (Finset.erase_subset zcn s.instances).trans h.instances_subset⟩
      have hcount := h.count
      show s.currentNumberOfZombies - 1 = ((s.instances.erase zcn).card : Int)
      omega
    exact hgone.freeFakeCn (Finset.notMem_erase zcn s.instances)
  · rw [if_pos hzcn]
    exact h

/-- One event. -/
theorem counted_step {s : State} {e : Event} (hsafe : Safe s e) (h : Counted s) :
    Counted (step s e) := by
  cases e with
  | getFakeCn => exact h.getFakeCn
  | freeFakeCn fcn => exact h.freeFakeCn hsafe
  | createZombie => exact h.createZombie hsafe
  | destroyZombie zcn => exact h.destroyZombie zcn
  | connect => exact ⟨h.count, h.instances_subset⟩
  | disconnect cn =>
    rw [step]
    split_ifs
    · exact ⟨h.count, h.instances_subset⟩
    · exact h

/-- **The numbers of fake clients.** The answer of a search is right exactly when there is room. In
every run in which each search has room and no number is given back that a zombie has, the zombies
are counted, and where there is room the next number is free and not one of a zombie. -/
theorem zombies_counted (s : State) {es : List Event} (hsafe : Along Safe step init es) :
    (Answered s (getFakeCn s).1 ↔ Room s) ∧
      (Machine.run step init es).currentNumberOfZombies =
        (Machine.run step init es).instances.card ∧
      (Room (Machine.run step init es) →
        ¬ taken (Machine.run step init es) (getFakeCn (Machine.run step init es)).1 ∧
          (getFakeCn (Machine.run step init es)).1 ∉ (Machine.run step init es).instances) := by
  have hcounted : Counted (Machine.run step init es) :=
    hsafe.inv (fun s e => counted_step) ⟨rfl, Finset.empty_subset _⟩
  refine ⟨answered_iff s, hcounted.count, fun hroom => ?_⟩
  have hfree := not_taken_search hroom
  rw [getFakeCn_eq]
  exact ⟨hfree, fun hmem => hfree (Or.inr (hcounted.instances_subset hmem))⟩

/-- A zombie is created and destroyed. -/
theorem zombies_counted_one :
    (Machine.run step init [.createZombie, .destroyZombie 0]).currentNumberOfZombies =
      (Machine.run step init [.createZombie, .destroyZombie 0]).instances.card := by
  have hroom : Room init := ⟨0, by decide, by decide⟩
  have hsafe : Along Safe step init [.createZombie, .destroyZombie 0] :=
    ⟨fun _ => hroom, trivial, trivial⟩
  exact (zombies_counted init hsafe).2.1

/-! ## A full table -/

/-- When all the numbers before the last one are taken, the last one is the answer. -/
theorem search_of_forall_taken {s : State} (h : ∀ fcn : Nat, fcn < 127 → taken s fcn) :
    search s = 127 := by
  obtain ⟨hle, hstop, -⟩ := search_spec s
  rcases hstop with hfree | hlast
  · by_contra hne
    exact hfree (h _ (by omega))
  · exact hlast

/-- Clients that connect one after the other take one slot after the other. -/
theorem run_connect (n : Nat) : Machine.run step init (List.replicate n .connect) =
    { init with slots := List.replicate n .client } := by
  induction n with
  | zero => rfl
  | succ n ih =>
    have hnone : (List.replicate n Slot.client).findIdx? (· = .empty) = none := by
      rw [List.findIdx?_eq_none_iff]
      intro slot hslot
      rw [List.eq_of_mem_replicate hslot]
      rfl
    rw [List.replicate_succ', run_snoc, ih, step, addclient, hnone, List.replicate_succ']

/-- A slot of a client, in a table of which one slot may be another one. -/
theorem taken_of_client {s : State} {fcn : Nat} (h : s.slots[fcn]? = some .client) :
    taken s fcn :=
  Or.inl (decide_eq_true ⟨Int.natCast_nonneg fcn, h⟩)

/-- In a full table without fake clients, two zombies share the number of a client. -/
theorem full_table {s : State} (hlength : s.slots.length = 128)
    (hclient : ∀ fcn : Nat, fcn < 128 → s.slots[fcn]? = some .client)
    (hinstances : s.instances = ∅) (hcount : s.currentNumberOfZombies = 0) :
    (getFakeCn s).1 = 127 ∧ ¬ Room s ∧
      (createZombie (createZombie s)).currentNumberOfZombies = 2 ∧
      (createZombie (createZombie s)).instances = {127} := by
  have hsearch : search s = 127 :=
    search_of_forall_taken fun fcn hfcn => taken_of_client (hclient fcn (by omega))
  have hfirst := createZombie_eq (s := s) (by rw [hcount]; decide)
  rw [hsearch, hcount, hinstances] at hfirst
  have hset : setclienttype s.slots ((127 : Nat) : Int) .blocked = s.slots.set 127 .blocked :=
    if_pos ⟨by decide, by rw [hlength]; decide⟩
  have hsearch' : search (createZombie s) = 127 := by
    refine search_of_forall_taken fun fcn hfcn => taken_of_client ?_
    rw [hfirst]
    dsimp only
    rw [hset, List.getElem?_set_ne (by omega)]
    exact hclient fcn (by omega)
  have hsecond := createZombie_eq (s := createZombie s) (by
    rw [hfirst]
    exact (by decide : (0 + 1 : Int) < 60))
  rw [hsearch'] at hsecond
  refine ⟨?_, fun ⟨fcn, hfcn, hfree⟩ => hfree (taken_of_client (hclient fcn hfcn)), ?_, ?_⟩
  · rw [getFakeCn_eq, hsearch]
    rfl
  · rw [hsecond, hfirst]
    rfl
  · rw [hsecond, hfirst]
    rfl

/-- With 128 clients the number of a client is given out, and the next zombies share it. -/
theorem zombies_full_table :
    let s := Machine.run step init (List.replicate 128 .connect)
    ((getFakeCn s).1 = 127 ∧ taken s 127 ∧ ¬ Answered s (getFakeCn s).1) ∧
      (Machine.run step s [.createZombie, .createZombie]).currentNumberOfZombies = 2 ∧
      (Machine.run step s [.createZombie, .createZombie]).instances = {127} := by
  intro s
  have hrun : s = { init with slots := List.replicate 128 .client } := run_connect 128
  clear_value s
  have hlength : s.slots.length = 128 := by
    rw [hrun]
    exact List.length_replicate
  have hclient (fcn : Nat) (hfcn : fcn < 128) : s.slots[fcn]? = some .client := by
    rw [hrun]
    exact List.getElem?_replicate.trans (if_pos hfcn)
  obtain ⟨hanswer, hroom, hzombies⟩ := full_table hlength hclient (by rw [hrun]; rfl)
    (by rw [hrun]; rfl)
  have htwo : Machine.run step s [.createZombie, .createZombie] =
      createZombie (createZombie s) := by
    simp only [Machine.run, List.foldl_cons, List.foldl_nil, step]
  rw [htwo]
  exact ⟨⟨hanswer, taken_of_client (hclient 127 (by decide)), fun h =>
    hroom ((answered_iff s).mp h)⟩, hzombies⟩

end FakeCns

end Zuckerserv
