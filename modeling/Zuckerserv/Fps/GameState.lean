import Mathlib.Algebra.GroupWithZero.Nat
import Mathlib.Data.List.Basic
import Mathlib.Data.List.Count
import Mathlib.Logic.Function.Basic

/-!
# The state of a player

`fpsstate` of `fpsgame/game.h` with `projectilestate` and `gamestate` of
`fpsgame/server.h`: what a client carries, how it is damaged, and the projectiles it has in
the air.

* `Gun`, `guns` — the guns a client can fire and their table.
* `ProjectileState` — the ids of the projectiles of one kind, at most `N` of them.
* `GameState` — the state itself, with `isalive`, `waitexpired`, `respawn`, `pickup` and
  `dodamage`.
-/

namespace Zuckerserv

namespace Game

/-! ## Guns and items -/

/-- `GUN_FIST` to `GUN_PISTOL`. -/
inductive Gun
  | FIST | SG | CG | RL | RIFLE | «GL» | PISTOL
  deriving DecidableEq, Repr

/-- The gun of a number, `gun<GUN_FIST || gun>GUN_PISTOL` being refused. -/
def Gun.ofInt (gun : Int32) : Option Gun :=
  [FIST, SG, CG, RL, RIFLE, «GL», PISTOL][gun.toInt.toNat]?.filter fun _ => 0 ≤ gun

/-- What the server uses of `guninfo`. -/
structure GunInfo where
  /-- Milliseconds between two shots. -/
  attackdelay : Int32
  /-- The damage of one ray. -/
  damage : Int32
  /-- How far the gun reaches; 0 for no limit. -/
  range : Int32
  /-- The number of rays of one shot. -/
  rays : Int32
  /-- The radius of its explosions. -/
  exprad : Int32

/-- `guns`. -/
def guns : Gun → GunInfo
  | .FIST => ⟨250, 50, 14, 1, 0⟩
  | .SG => ⟨1400, 10, 1024, 20, 0⟩
  | .CG => ⟨100, 30, 1024, 1, 0⟩
  | .RL => ⟨800, 120, 1024, 1, 40⟩
  | .RIFLE => ⟨1500, 100, 2048, 1, 0⟩
  | .GL => ⟨600, 90, 1024, 1, 45⟩
  | .PISTOL => ⟨500, 35, 1024, 1, 0⟩

/-- `I_SHELLS` to `I_QUAD`. -/
inductive Item
  | SHELLS | BULLETS | ROCKETS | ROUNDS | GRENADES | CARTRIDGES | HEALTH | BOOST | GREENARMOUR
  | YELLOWARMOUR | QUAD
  deriving DecidableEq, Repr

/-- The item of an entity type, `type<I_SHELLS || type>I_QUAD` being refused. -/
def Item.ofInt (type : Int32) : Option Item :=
  [SHELLS, BULLETS, ROCKETS, ROUNDS, GRENADES, CARTRIDGES, HEALTH, BOOST, GREENARMOUR,
    YELLOWARMOUR, QUAD][(type - 8).toInt.toNat]?.filter fun _ => 8 ≤ type

/-- What the server uses of `itemstat`. -/
structure ItemStat where
  /-- What the item adds. -/
  add : Int32
  /-- Up to which limit. -/
  max : Int32

/-- `itemstats`. -/
def itemstats : Item → ItemStat
  | .SHELLS => ⟨10, 30⟩
  | .BULLETS => ⟨20, 60⟩
  | .ROCKETS => ⟨5, 15⟩
  | .ROUNDS => ⟨5, 15⟩
  | .GRENADES => ⟨10, 30⟩
  | .CARTRIDGES => ⟨30, 120⟩
  | .HEALTH => ⟨25, 100⟩
  | .BOOST => ⟨10, 1000⟩
  | .GREENARMOUR => ⟨100, 100⟩
  | .YELLOWARMOUR => ⟨200, 200⟩
  | .QUAD => ⟨20000, 30000⟩

/-- `is.info` of an ammunition item: the gun it is for. -/
def Item.gun : Item → Option Gun
  | .SHELLS => some .SG
  | .BULLETS => some .CG
  | .ROCKETS => some .RL
  | .ROUNDS => some .RIFLE
  | .GRENADES => some .GL
  | .CARTRIDGES => some .PISTOL
  | _ => none

/-! ## Projectiles -/

/-- `projectilestate<N>`: the entries `projs[0]` to `projs[numprojs-1]`. -/
structure ProjectileState (N : Nat) where
  /-- The ids. -/
  projs : List Int32
  /-- They fit into the array. -/
  length_le : projs.length ≤ N

namespace ProjectileState

variable {N : Nat}

/-- The size of the arrays of `rockets` and `grenades`. -/
instance : NeZero 8 := ⟨by decide⟩

/-- `void reset()`. -/
def reset : ProjectileState N := ⟨[], Nat.zero_le N⟩

/-- `void add(int val)`: a full array is emptied first. -/
def add [NeZero N] (p : ProjectileState N) (val : Int32) : ProjectileState N :=
  if h : p.projs.length ≥ N then ⟨[val], Nat.one_le_iff_ne_zero.mpr (NeZero.ne N)⟩
  else ⟨p.projs ++ [val], by
    rw [List.length_append, List.length_singleton]
    omega⟩

/-- `projs[i] = projs[--numprojs]`. -/
def swapRemove (l : List Int32) (i : Nat) : List Int32 :=
  (l.set i (l.getLastD 0)).dropLast

theorem length_swapRemove (l : List Int32) (i : Nat) : (swapRemove l i).length = l.length - 1 := by
  rw [swapRemove, List.length_dropLast, List.length_set]

/-- `bool remove(int val)`: the first entry that is `val` is replaced by the last one. -/
def remove (p : ProjectileState N) (val : Int32) : Option (ProjectileState N) :=
  if val ∈ p.projs then
    some ⟨swapRemove p.projs (p.projs.idxOf val), by
      have h := p.length_le
      rw [length_swapRemove]
      omega⟩
  else none

/-- Removing an entry takes away one occurrence of it. -/
theorem cons_swapRemove_perm {l : List Int32} {i : Nat} (h : i < l.length) :
    (l[i] :: swapRemove l i).Perm l := by
  induction l generalizing i with
  | nil => exact absurd h (Nat.not_lt_zero i)
  | cons a l ih =>
    cases i with
    | zero =>
      cases hl : l.getLast? with
      | none =>
        rw [List.getLast?_eq_none_iff] at hl
        subst hl
        exact List.Perm.refl _
      | some b =>
        obtain ⟨ys, rfl⟩ := List.getLast?_eq_some_iff.mp hl
        have hlast : (a :: (ys ++ [b])).getLastD 0 = b := by
          rw [List.getLastD_eq_getLast?, ← List.cons_append, List.getLast?_concat]
          rfl
        rw [swapRemove, hlast, List.getElem_cons_zero, List.set_cons_zero, ← List.cons_append,
          List.dropLast_concat]
        exact List.Perm.cons a (List.perm_append_singleton b ys).symm
    | succ i =>
      have hi : i < l.length := Nat.lt_of_succ_lt_succ h
      have hne : l ≠ [] := fun hnil => absurd hi (by rw [hnil]; exact Nat.not_lt_zero i)
      have hlast : (a :: l).getLastD 0 = l.getLastD 0 := by
        obtain ⟨b, bs, rfl⟩ := List.exists_cons_of_ne_nil hne
        simp
      have hset : l.set i (l.getLastD 0) ≠ [] := by
        rw [Ne, ← List.length_eq_zero_iff, List.length_set]
        omega
      have hswap : swapRemove (a :: l) (i + 1) = a :: swapRemove l i := by
        rw [swapRemove, hlast, List.set_cons_succ, List.dropLast_cons_of_ne_nil hset, swapRemove]
      rw [hswap, List.getElem_cons_succ]
      exact (List.Perm.swap a _ _).trans (List.Perm.cons a (ih hi))

/-- What `remove` does: it finds the id, and takes one occurrence of it away. -/
theorem remove_eq_some {p q : ProjectileState N} {val : Int32} (h : p.remove val = some q) :
    (val :: q.projs).Perm p.projs := by
  unfold remove at h
  split_ifs at h with hmem
  have hidx := List.idxOf_lt_length_iff.mpr hmem
  have hperm := cons_swapRemove_perm hidx
  rw [List.getElem_idxOf hidx] at hperm
  rw [← Option.some.inj h]
  exact hperm

/-- An id that is found is counted once less. -/
theorem count_remove {p q : ProjectileState N} {val : Int32} (h : p.remove val = some q)
    (i : Int32) : p.projs.count i = q.projs.count i + if val = i then 1 else 0 := by
  rw [← (remove_eq_some h).count_eq, List.count_cons]
  simp only [beq_iff_eq]

/-- An id that is added is counted once more at most: the array may have been emptied. -/
theorem count_add_le [NeZero N] (p : ProjectileState N) (val i : Int32) :
    (p.add val).projs.count i ≤ p.projs.count i + if val = i then 1 else 0 := by
  have hone : [val].count i = if val = i then 1 else 0 := by
    rw [List.count_singleton]
    simp only [beq_iff_eq]
  unfold add
  split
  · rw [hone]
    exact Nat.le_add_left _ _
  · exact Nat.le_of_eq (by rw [List.count_append, hone])

end ProjectileState

/-! ## The state -/

/-- `CS_ALIVE` and so on. -/
inductive PlayState
  | ALIVE | DEAD | SPAWNING | LAGGED | EDITING | SPECTATOR
  deriving DecidableEq, Repr

/-- `CS_ALIVE` or `CS_LAGGED`. -/
def PlayState.plays : PlayState → Bool
  | .ALIVE | .LAGGED => true
  | _ => false

/-- `gamestate` with the `fpsstate` it inherits. -/
structure GameState where
  health : Int32
  maxhealth : Int32
  armour : Int32
  /-- `A_BLUE`, `A_GREEN` or `A_YELLOW`. -/
  armourtype : Int32
  /-- How long the quad damage still lasts. -/
  quadmillis : Int32
  gunselect : Int32
  /-- How long after `lastshot` the next shot is allowed. -/
  gunwait : Int32
  ammo : Gun → Int32
  state : PlayState
  /-- The state to which the end of editing returns. -/
  editstate : PlayState
  lastdeath : Int32
  /-- The time up to which events are flushed when the client respawns; 0 for none. -/
  deadflush : Int32
  /-- When the client was offered to spawn; negative if it was not. -/
  lastspawn : Int32
  /-- Counts the lives of the client, modulo 128. -/
  lifesequence : Int32
  /-- The time of the last shot that took effect. -/
  lastshot : Int32
  rockets : ProjectileState 8
  grenades : ProjectileState 8
  frags : Int32
  deaths : Int32
  suicides : Int32
  teamkills : Int32
  shotdamage : Int32
  damage : Int32
  explosivedamage : Int32
  hits : Int32
  misses : Int32
  shots : Int32

namespace GameState

/-- `DEATHMILLIS`. -/
def DEATHMILLIS : Int32 := 300

/-- `bool isalive(int gamemillis)`. -/
def isalive (gs : GameState) (gamemillis : Int32) : Prop :=
  gs.state = .ALIVE ∨ gs.state = .DEAD ∧ gamemillis - gs.lastdeath ≤ DEATHMILLIS

instance (gs : GameState) (gamemillis : Int32) : Decidable (gs.isalive gamemillis) :=
  inferInstanceAs (Decidable (_ ∨ _))

/-- `bool waitexpired(int gamemillis)`. -/
def waitexpired (gs : GameState) (gamemillis : Int32) : Prop :=
  gamemillis - gs.lastshot ≥ gs.gunwait

instance (gs : GameState) (gamemillis : Int32) : Decidable (gs.waitexpired gamemillis) :=
  inferInstanceAs (Decidable (_ ≥ _))

/-- `void respawn()` of `gamestate`, which calls the one of `fpsstate`. -/
def respawn (gs : GameState) : GameState :=
  { gs with
    health := gs.maxhealth
    armour := 0
    armourtype := 0
    quadmillis := 0
    gunselect := 6
    gunwait := 0
    ammo := Function.update (fun _ => 0) .FIST 1
    deadflush := 0
    lastspawn := -1
    lastshot := 0 }

/-- `void reset()`. -/
def reset (gs : GameState) : GameState :=
  let gs := if gs.state ≠ .SPECTATOR then { gs with state := .DEAD, editstate := .DEAD } else gs
  respawn { gs with
    maxhealth := 100
    rockets := .reset
    grenades := .reset
    frags := 0, deaths := 0, suicides := 0, teamkills := 0, shotdamage := 0, damage := 0
    explosivedamage := 0, hits := 0, misses := 0, shots := 0
    lastdeath := 0 }

/-- `void reassign()`. -/
def reassign (gs : GameState) : GameState :=
  { gs.respawn with rockets := .reset, grenades := .reset }

/-- What `spawnstate` gives a client to begin its life with. -/
structure Loadout where
  health : Int32
  armour : Int32
  armourtype : Int32
  quadmillis : Int32
  gunselect : Int32
  ammo : Gun → Int32

/-- `spawnstate` of `server.cpp`, the choice of the game mode being `l`. -/
def spawnstate (gs : GameState) (l : Loadout) : GameState :=
  { gs with
    health := l.health
    armour := l.armour
    armourtype := l.armourtype
    quadmillis := l.quadmillis
    gunselect := l.gunselect
    ammo := l.ammo
    lifesequence := (gs.lifesequence + 1) &&& 0x7F }

/-- `bool canpickup(int type)`. -/
def canpickup (gs : GameState) (type : Int32) : Prop :=
  match Item.ofInt type with
  | none => False
  | some item =>
    match item, item.gun with
    | .BOOST, _ => gs.maxhealth < (itemstats item).max
    | .HEALTH, _ => gs.health < gs.maxhealth
    | .GREENARMOUR, _ => ¬ (gs.armourtype = 2 ∧ gs.armour ≥ 100) ∧
        (gs.armourtype = 0 ∨ gs.armour < (itemstats item).max)
    | .YELLOWARMOUR, _ => gs.armourtype = 0 ∨ gs.armour < (itemstats item).max
    | _, some gun => gs.ammo gun < (itemstats item).max
    | _, none => gs.quadmillis < (itemstats item).max

instance (gs : GameState) (type : Int32) : Decidable (gs.canpickup type) := by
  unfold canpickup
  split
  · infer_instance
  · split <;> infer_instance

/-- `void pickup(int type)`. -/
def pickup (gs : GameState) (type : Int32) : GameState :=
  match Item.ofInt type with
  | none => gs
  | some item =>
    let stat := itemstats item
    match item, item.gun with
    | .BOOST, _ =>
      let maxhealth := min (gs.maxhealth + stat.add) stat.max
      { gs with maxhealth, health := min (gs.health + stat.add) maxhealth }
    | .HEALTH, _ => { gs with health := min (gs.health + stat.add) gs.maxhealth }
    | .GREENARMOUR, _ => { gs with armour := min (gs.armour + stat.add) stat.max, armourtype := 1 }
    | .YELLOWARMOUR, _ => { gs with armour := min (gs.armour + stat.add) stat.max, armourtype := 2 }
    | _, some gun =>
      { gs with ammo := Function.update gs.ammo gun (min (gs.ammo gun + stat.add) stat.max) }
    | _, none => { gs with quadmillis := min (gs.quadmillis + stat.add) stat.max }

/-- `int dodamage(int damage)` of `fpsstate`: armour absorbs a part. -/
def dodamage (gs : GameState) (damage : Int32) : GameState :=
  let ad := damage * (gs.armourtype + 1) * 25 / 100
  let ad := if ad > gs.armour then gs.armour else ad
  { gs with armour := gs.armour - ad, health := gs.health - (damage - ad) }

end GameState

end Game

end Zuckerserv
