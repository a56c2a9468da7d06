import Mathlib.Data.List.Basic

/-!
# The map rotation

The map of the next game is the entry of the rotation at the selection index, which is taken round
the list, or a random entry that is held back for the index. When it is the map being played, the
index goes up by one and the choice is made once more, and that one stands.

* `Implementation` — the three ways to choose.
* `getMapName` — the choice, with its second try.
* `candidate` — the two entries that are looked at.
* `get_map_name_differs_iff` — when the map differs from the one being played.
-/

namespace Zuckerserv

namespace MapRotation

variable {γ μ : Type}

/-! ## The code -/

/-- `table.wrapped_index(t, index, offset)`; the first element has the index 1. -/
def wrappedIndex {α : Type} (t : List α) (index offset : Nat) : Option α :=
  match index % t.length + offset with
  | 0 => none
  | i + 1 => t[i]?

/-- What the choice reads of the server. -/
structure Server (γ μ : Type) where
  /-- `server.map`. -/
  map : μ
  playercount : Nat
  /-- Whether a mode has teams. -/
  teams : γ → Bool
  smallSingleGame : Nat
  smallTeamGame : Nat
  /-- `math.random(m)`, in its `k`-th call. -/
  random : Nat → Nat → Nat

/-- An implementation, with the rotations that it has loaded. -/
inductive Implementation (γ μ : Type)
  | standard (maps : γ → List μ)
  | size (small_maps big_maps : γ → List μ)
  | random (maps : γ → List μ)

/-- The variables of the modules. -/
structure State (μ : Type) where
  selectionIndex : Nat
  /-- `next_map` and `next_map_index` of the random implementation. There is no index before there
  is a map, and none for the first map. -/
  next : Option (μ × Option Nat)
  /-- How often `math.random` has been called. -/
  draws : Nat

/-- `get_map_rotation(selection_index, gamemode)`. -/
def getMapRotation (w : Server γ μ) (gamemode : γ) : Implementation γ μ → γ → List μ
  | .standard maps => maps
  | .size small_maps big_maps =>
    let small_game := if w.teams gamemode then w.smallTeamGame else w.smallSingleGame
    if w.playercount ≤ small_game then small_maps else big_maps
  | .random maps => maps

/-- The list that an implementation chooses from. -/
def rotation (w : Server γ μ) (gamemode : γ) (impl : Implementation γ μ) : List μ :=
  getMapRotation w gamemode impl gamemode

/-- `random_map(gamemode)`, with the `k`-th random number. -/
def randomMap (w : Server γ μ) (maps : List μ) (k : Nat) : Option μ :=
  match w.random k maps.length with
  | 0 => none
  | i + 1 => maps[i]?

/-- A draw, which is kept as `next_map`. An error leaves the variable as it is. -/
def draw (w : Server γ μ) (maps : List μ) (next_map_index : Option Nat) (s : State μ) :
    Option μ × State μ :=
  let next := (randomMap w maps s.draws).map fun next_map => (next_map, next_map_index)
  (randomMap w maps s.draws, { s with next := next.or s.next, draws := s.draws + 1 })

/-- `implementation.get_map_name(selection_index, gamemode)`. -/
def implName (w : Server γ μ) (gamemode : γ) (impl : Implementation γ μ) (s : State μ) :
    Option μ × State μ :=
  match impl with
  | .standard maps => (wrappedIndex (maps gamemode) s.selectionIndex 1, s)
  | .size _ _ => (wrappedIndex (rotation w gamemode impl) s.selectionIndex 1, s)
  | .random maps =>
    match s.next with
    | none => draw w (maps gamemode) none s
    | some (next_map, next_map_index) =>
      if next_map_index ≠ some s.selectionIndex then
        draw w (maps gamemode) (some s.selectionIndex) s
      else (some next_map, s)

/-- `get_map_name(gamemode)`. -/
def getMapName [DecidableEq μ] (w : Server γ μ) (gamemode : γ) (impl : Implementation γ μ) (s : State μ) :
    Option μ × State μ :=
  let r := implName w gamemode impl s
  if r.1 = some w.map then
    implName w gamemode impl { r.2 with selectionIndex := r.2.selectionIndex + 1 }
  else r

/-! ## The two tries -/

/-- The map that is held back for the selection index. -/
def State.held (s : State μ) : Option μ :=
  match s.next with
  | some (next_map, next_map_index) =>
    if next_map_index = some s.selectionIndex then some next_map else none
  | none => none

/-- The entry that the first try looks at. -/
def candidate (w : Server γ μ) (gamemode : γ) (impl : Implementation γ μ) (s : State μ) :
    Option μ :=
  match impl with
  | .random maps => s.held.or (randomMap w (maps gamemode) s.draws)
  | _ => wrappedIndex (rotation w gamemode impl) s.selectionIndex 1

/-- The entry behind it: the next one of the rotation, or the next one that is drawn. -/
def successor (w : Server γ μ) (gamemode : γ) (impl : Implementation γ μ) (s : State μ) :
    Option μ :=
  match impl with
  | .random maps =>
    randomMap w (maps gamemode) (if s.held.isSome then s.draws else s.draws + 1)
  | _ => wrappedIndex (rotation w gamemode impl) (s.selectionIndex + 1) 1

/-- `math.random(m)` is between 1 and `m`. -/
def Server.RandomInRange (w : Server γ μ) : Prop :=
  ∀ k m, 0 < m → 1 ≤ w.random k m ∧ w.random k m ≤ m

section Tries

variable (w : Server γ μ) (gamemode : γ) (impl : Implementation γ μ) (s : State μ)

theorem implName_fst : (implName w gamemode impl s).1 = candidate w gamemode impl s := by
  cases impl with
  | standard maps => rfl
  | size small_maps big_maps => rfl
  | random maps =>
    obtain ⟨index, next, draws⟩ := s
    cases next with
    | none => rfl
    | some p =>
      by_cases h : p.2 = some index
      · simp [implName, candidate, State.held, h]
      · simp [implName, candidate, State.held, h, draw]

/-- The second try, when the first one has found a map. -/
theorem implName_next {m : μ} (h : candidate w gamemode impl s = some m) :
    (implName w gamemode impl { (implName w gamemode impl s).2 with
      selectionIndex := (implName w gamemode impl s).2.selectionIndex + 1 }).1 =
      successor w gamemode impl s := by
  cases impl with
  | standard maps => rfl
  | size small_maps big_maps => rfl
  | random maps =>
    obtain ⟨index, next, draws⟩ := s
    cases next with
    | none =>
      have hdraw : randomMap w (maps gamemode) draws = some m := h
      simp [implName, successor, State.held, draw, hdraw]
    | some p =>
      by_cases hp : p.2 = some index
      · simp [implName, successor, State.held, hp, draw]
      · have hdraw : randomMap w (maps gamemode) draws = some m := by
          simpa [candidate, State.held, hp] using h
        simp [implName, successor, State.held, hp, draw, hdraw]

theorem getMapName_fst [DecidableEq μ] : (getMapName w gamemode impl s).1 =
    if candidate w gamemode impl s = some w.map then successor w gamemode impl s
    else candidate w gamemode impl s := by
  rw [getMapName]
  dsimp only
  rw [implName_fst]
  split_ifs with h
  · exact implName_next w gamemode impl s h
  · exact implName_fst w gamemode impl s

end Tries

/-! ## The choice -/

theorem wrappedIndex_isSome {α : Type} {t : List α} (ht : t ≠ []) (index : Nat) :
    (wrappedIndex t index 1).isSome := by
  have hlt := Nat.mod_lt index (List.length_pos_iff.mpr ht)
  have hget : t[index % t.length]? = some t[index % t.length] := List.getElem?_eq_getElem hlt
  rw [wrappedIndex]
  dsimp only
  rw [hget]
  rfl

theorem randomMap_isSome {w : Server γ μ} (hw : w.RandomInRange) {maps : List μ}
    (hmaps : maps ≠ []) (k : Nat) : (randomMap w maps k).isSome := by
  obtain ⟨hpos, hle⟩ := hw k maps.length (List.length_pos_iff.mpr hmaps)
  obtain ⟨i, hi⟩ := Nat.exists_eq_succ_of_ne_zero (Nat.ne_of_gt hpos)
  have hget : maps[i]? = some maps[i] := List.getElem?_eq_getElem (by omega)
  rw [randomMap, hi]
  dsimp only
  rw [hget]
  rfl

section Choice

variable {w : Server γ μ} (hw : w.RandomInRange) {gamemode : γ} {impl : Implementation γ μ}
  (hmaps : rotation w gamemode impl ≠ []) (s : State μ)
include hw hmaps

theorem candidate_isSome : (candidate w gamemode impl s).isSome := by
  cases impl with
  | standard maps => exact wrappedIndex_isSome hmaps _
  | size small_maps big_maps => exact wrappedIndex_isSome hmaps _
  | random maps =>
    rw [candidate, Option.isSome_or, Bool.or_eq_true]
    exact Or.inr (randomMap_isSome hw hmaps _)

theorem successor_isSome : (successor w gamemode impl s).isSome := by
  cases impl with
  | standard maps => exact wrappedIndex_isSome hmaps _
  | size small_maps big_maps => exact wrappedIndex_isSome hmaps _
  | random maps => exact randomMap_isSome hw hmaps _

end Choice

/-- **The map of the next game** differs from the one being played exactly when the two entries that
are looked at are not both that map. -/
theorem get_map_name_differs_iff [DecidableEq μ] {w : Server γ μ} (hw : w.RandomInRange) {gamemode : γ}
    {impl : Implementation γ μ} {a b : μ} (ha : a ∈ rotation w gamemode impl)
    (_ : b ∈ rotation w gamemode impl) (_ : a ≠ b) (s : State μ) :
    (∃ m, (getMapName w gamemode impl s).1 = some m ∧ m ≠ w.map) ↔
      ¬ (candidate w gamemode impl s = some w.map ∧ successor w gamemode impl s = some w.map) := by
  have hmaps := List.ne_nil_of_mem ha
  obtain ⟨m, hm⟩ := Option.isSome_iff_exists.mp (candidate_isSome hw hmaps s)
  obtain ⟨n, hn⟩ := Option.isSome_iff_exists.mp (successor_isSome hw hmaps s)
  rw [getMapName_fst, hm, hn]
  split_ifs with h
  · simp [h]
  · rw [Option.some.injEq] at h
    simp [h]

/-- A list whose entries change. -/
theorem get_map_name_differs_standard :
    ∃ m, (getMapName (⟨"ot", 0, fun _ => false, 0, 0, fun _ _ => 1⟩ : Server Unit String) ()
      (.standard fun _ => ["ot", "reissen", "turbine"]) ⟨0, none, 0⟩).1 = some m ∧ m ≠ "ot" := by
  have hw : Server.RandomInRange (⟨"ot", 0, fun _ => false, 0, 0, fun _ _ => 1⟩ :
      Server Unit String) := fun k m hm => ⟨Nat.le_refl 1, hm⟩
  exact (get_map_name_differs_iff (a := "ot") (b := "reissen") hw (by decide) (by decide)
    (by decide) _).mpr (by decide)

/-- The same map twice in a row is chosen when it is being played. -/
theorem get_map_name_repeated :
    (getMapName (⟨"ot", 0, fun _ => false, 0, 0, fun _ _ => 1⟩ : Server Unit String) ()
      (.standard fun _ => ["ot", "ot", "reissen"]) ⟨0, none, 0⟩).1 = some "ot" := by
  decide

end MapRotation

end Zuckerserv
