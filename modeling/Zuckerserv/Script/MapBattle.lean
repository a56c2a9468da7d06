import Zuckerserv.Script.MapRotation

/-!
# The vote for a map at intermission

Three maps are offered: the one that has won or comes next, one that a counter takes from the
rotation without the map being played, and a random one from the same list. The second is replaced
once when it is the first, and the third is drawn until it is neither of them.

* `getNext`, `getRandomMap` — the choice of a map other than the one being played.
* `start` — the offer, with the loop that draws the third map.
* `battle` — the offer as the event handlers ask for it.
* `battle_offers_iff` — when the loop ends with three different maps.
-/

namespace Zuckerserv

namespace MapBattle

open MapRotation

variable {γ μ : Type} [DecidableEq μ]

/-! ## The code -/

/-- The entries of the rotation that are not the map being played. -/
def others (hay : List μ) (map : μ) : List μ := hay.filter (· ≠ map)

/-- `mapbattle.get_random_map(mode)`, with the `k`-th random number. -/
def getRandomMap (w : Server γ μ) (hay : List μ) (k : Nat) : Option μ :=
  randomMap w (others hay w.map) k

/-- `mapbattle.lastindex` after the counter has moved on, in a list of `n` entries. -/
def following (n lastindex : Nat) : Nat := if lastindex + 1 > n then 1 else lastindex + 1

/-- `mapbattle.get_next(mode)`, and the counter. -/
def getNext (w : Server γ μ) (hay : List μ) (lastindex : Nat) : Option μ × Nat :=
  let maps := others hay w.map
  let lastindex := following maps.length lastindex
  (maps[lastindex - 1]?, lastindex)

/-- `while map3 == map1 or map3 == map2 do map3 = mapbattle.get_random_map(mode) end`. -/
def redraw (w : Server γ μ) (hay : List μ) (map1 map2 : Option μ) :
    Nat → Nat → Option μ → Option (Option μ)
  | 0, _, _ => none
  | rounds + 1, k, map3 =>
    if map3 = map1 ∨ map3 = map2 then
      redraw w hay map1 map2 rounds (k + 1) (getRandomMap w hay k)
    else some map3

/-- `mapbattle.start(map1, map2, map3, mode)`: the maps that are offered, when the loop ends within
the given rounds. -/
def start (w : Server γ μ) (hay : List μ) (rounds lastindex k : Nat) (map1 map2 map3 : Option μ) :
    Option (Option μ × Option μ × Option μ) :=
  let map2 := if map1 = map2 then (getNext w hay lastindex).1 else map2
  (redraw w hay map1 map2 rounds k map3).map fun map3 => (map1, map2, map3)

/-- The first map: the winner of the vote, or else the next map of the rotation. -/
def first (w : Server γ μ) (gamemode : γ) (impl : Implementation γ μ) (s : State μ)
    (voted : Option μ) : Option μ × State μ :=
  match voted with
  | some map => (some map, s)
  | none => getMapName w gamemode impl s

/-- `mapbattle.start(s, mapbattle.get_next(..), mapbattle.get_random_map(..), ..)`, in the handlers
of `intermission` and of the first `setnextgame`, where nothing has been voted for. -/
def battle (w : Server γ μ) (gamemode : γ) (impl : Implementation γ μ) (s : State μ)
    (voted : Option μ) (rounds lastindex : Nat) : Option (Option μ × Option μ × Option μ) :=
  let hay := rotation w gamemode impl
  let map1 := first w gamemode impl s voted
  let map2 := getNext w hay lastindex
  start w hay rounds map2.2 (map1.2.draws + 1) map1.1 map2.1 (getRandomMap w hay map1.2.draws)

/-! ## The loop -/

section Loop

variable {w : Server γ μ} {hay : List μ} {map1 map2 : Option μ}

/-- What the loop ends with is neither of the two maps, and it is the map that it began with or one
that it has drawn. -/
theorem of_redraw {rounds k : Nat} {map3 m : Option μ}
    (h : redraw w hay map1 map2 rounds k map3 = some m) :
    m ≠ map1 ∧ m ≠ map2 ∧ (m = map3 ∨ ∃ k, m = getRandomMap w hay k) := by
  induction rounds generalizing k map3 with
  | zero => exact absurd h (by simp [redraw])
  | succ rounds ih =>
    rw [redraw] at h
    split_ifs at h with hsame
    · obtain ⟨h1, h2, hdrawn⟩ := ih h
      refine ⟨h1, h2, Or.inr ?_⟩
      rcases hdrawn with hdrawn | hdrawn
      · exact ⟨k, hdrawn⟩
      · exact hdrawn
    · obtain rfl := Option.some.inj h
      rw [not_or] at hsame
      exact ⟨hsame.1, hsame.2, Or.inl rfl⟩

/-- The loop ends when a third map is drawn at some time. -/
theorem exists_redraw {k d : Nat} (hdraw : getRandomMap w hay (k + d) ≠ map1 ∧
    getRandomMap w hay (k + d) ≠ map2) (map3 : Option μ) :
    ∃ rounds m, redraw w hay map1 map2 rounds k map3 = some m := by
  by_cases hsame : map3 = map1 ∨ map3 = map2
  · induction d generalizing k map3 with
    | zero =>
      have hother : ¬ (getRandomMap w hay k = map1 ∨ getRandomMap w hay k = map2) :=
        not_or.mpr hdraw
      refine ⟨2, getRandomMap w hay k, ?_⟩
      rw [redraw, if_pos hsame, redraw, if_neg hother]
    | succ d ih =>
      by_cases hnext : getRandomMap w hay k = map1 ∨ getRandomMap w hay k = map2
      · have hplace : k + (d + 1) = k + 1 + d := by omega
        rw [hplace] at hdraw
        obtain ⟨rounds, m, hm⟩ := ih hdraw _ hnext
        refine ⟨rounds + 1, m, ?_⟩
        rw [redraw, if_pos hsame, hm]
      · refine ⟨2, getRandomMap w hay k, ?_⟩
        rw [redraw, if_pos hsame, redraw, if_neg hnext]
  · refine ⟨1, map3, ?_⟩
    rw [redraw, if_neg hsame]

/-- The loop does not end when every map to choose from is one of the two. -/
theorem redraw_eq_none (hdraw : ∀ k, getRandomMap w hay k = map1 ∨ getRandomMap w hay k = map2)
    {map3 : Option μ} (hmap3 : map3 = map1 ∨ map3 = map2) (rounds k : Nat) :
    redraw w hay map1 map2 rounds k map3 = none := by
  induction rounds generalizing k map3 with
  | zero => rfl
  | succ rounds ih =>
    rw [redraw, if_pos hmap3]
    exact ih (hdraw k) (k + 1)

end Loop

/-! ## The maps to choose from -/

/-- `math.random(m)` takes every value from 1 to `m` again and again. -/
def Recurrent (w : Server γ μ) : Prop :=
  ∀ m i, 1 ≤ i → i ≤ m → ∀ n, ∃ k ≥ n, w.random k m = i

section Maps

variable {w : Server γ μ} {hay : List μ}

omit [DecidableEq μ] in
theorem getElem?_following {l : List μ} (hl : l ≠ []) (lastindex : Nat) :
    ∃ m ∈ l, l[following l.length lastindex - 1]? = some m := by
  have hpos := List.length_pos_iff.mpr hl
  have hlt : following l.length lastindex - 1 < l.length := by
    rw [following]
    split_ifs <;> omega
  exact ⟨_, List.getElem_mem hlt, List.getElem?_eq_getElem hlt⟩

theorem getRandomMap_mem (hw : w.RandomInRange) (hothers : others hay w.map ≠ []) (k : Nat) :
    ∃ m ∈ others hay w.map, getRandomMap w hay k = some m := by
  obtain ⟨m, hm⟩ := Option.isSome_iff_exists.mp (randomMap_isSome hw hothers k)
  refine ⟨m, ?_, hm⟩
  rw [randomMap] at hm
  split at hm
  · exact absurd hm (by simp)
  · exact List.mem_of_getElem? hm

/-- Every map of the list is drawn some time later. -/
theorem exists_getRandomMap (hrec : Recurrent w) {m : μ} (hm : m ∈ others hay w.map) (n : Nat) :
    ∃ d, getRandomMap w hay (n + d) = some m := by
  obtain ⟨i, hi, hget⟩ := List.mem_iff_getElem.mp hm
  obtain ⟨k, hk, hrandom⟩ := hrec (others hay w.map).length (i + 1) (by omega) (by omega) n
  obtain ⟨d, rfl⟩ := Nat.exists_eq_add_of_le hk
  refine ⟨d, ?_⟩
  rw [getRandomMap, randomMap, hrandom]
  dsimp only
  rw [List.getElem?_eq_getElem hi, hget]

theorem first_isSome (hw : w.RandomInRange) {gamemode : γ} {impl : Implementation γ μ}
    (hmaps : rotation w gamemode impl ≠ []) (s : State μ) (voted : Option μ) :
    (first w gamemode impl s voted).1.isSome := by
  cases voted with
  | some m => rfl
  | none =>
    rw [first, getMapName_fst]
    split_ifs
    · exact successor_isSome hw hmaps s
    · exact candidate_isSome hw hmaps s

end Maps

/-! ## The offer -/

/-- There are two more maps than the first one and the one being played, and the counter does not
come to the first map twice in a row. -/
structure Offerable (l : List μ) (map1 : Option μ) (lastindex : Nat) : Prop where
  two : ∃ x ∈ l, ∃ y ∈ l, x ≠ y ∧ some x ≠ map1 ∧ some y ≠ map1
  apart : ¬ (l[following l.length lastindex - 1]? = map1 ∧
    l[following l.length (following l.length lastindex) - 1]? = map1)

section Offer

variable {w : Server γ μ} {hay : List μ} {map1 : Option μ} {lastindex : Nat}

/-- The second map that is offered. -/
def second (w : Server γ μ) (hay : List μ) (map1 : Option μ) (lastindex : Nat) : Option μ :=
  let next := getNext w hay lastindex
  if map1 = next.1 then (getNext w hay next.2).1 else next.1

theorem second_mem (map1 : Option μ) (lastindex : Nat) (hothers : others hay w.map ≠ []) :
    ∃ m ∈ others hay w.map, second w hay map1 lastindex = some m := by
  rw [second]
  split_ifs
  · exact getElem?_following hothers _
  · exact getElem?_following hothers _

/-- A second and a third map are there exactly when the condition holds. -/
theorem offerable_iff (hothers : others hay w.map ≠ []) :
    Offerable (others hay w.map) map1 lastindex ↔ second w hay map1 lastindex ≠ map1 ∧
      ∃ z ∈ others hay w.map, some z ≠ map1 ∧ some z ≠ second w hay map1 lastindex := by
  have hsecond : second w hay map1 lastindex ≠ map1 ↔
      ¬ ((others hay w.map)[following (others hay w.map).length lastindex - 1]? = map1 ∧
        (others hay w.map)[following (others hay w.map).length
          (following (others hay w.map).length lastindex) - 1]? = map1) := by
    by_cases h : (getNext w hay lastindex).1 = map1
    · have hvalue : second w hay map1 lastindex =
          (getNext w hay (getNext w hay lastindex).2).1 := if_pos h.symm
      rw [hvalue]
      exact not_congr (and_iff_right h).symm
    · have hvalue : second w hay map1 lastindex = (getNext w hay lastindex).1 :=
        if_neg (Ne.symm h)
      rw [hvalue]
      exact iff_of_true h fun hboth => h hboth.1
  obtain ⟨m, hm, hsome⟩ := second_mem map1 lastindex hothers
  constructor
  · rintro ⟨⟨x, hx, y, hy, hxy, hx1, hy1⟩, hapart⟩
    refine ⟨hsecond.mpr hapart, ?_⟩
    rw [hsome]
    -- one of the two maps is not the second one
    by_cases hxm : x = m
    · exact ⟨y, hy, hy1, fun h => hxy (hxm.trans (Option.some.inj h).symm)⟩
    · exact ⟨x, hx, hx1, fun h => hxm (Option.some.inj h)⟩
  · rintro ⟨hne, z, hz, hz1, hz2⟩
    refine ⟨⟨m, hm, z, hz, ?_, ?_, hz1⟩, hsecond.mp hne⟩
    · rintro rfl
      exact hz2 hsome.symm
    · rw [← hsome]
      exact hne

end Offer

/-- What the loop ends with is one of the other maps. -/
theorem redraw_mem {w : Server γ μ} {hay : List μ} {map1 map2 map3 m : Option μ} {rounds k : Nat}
    (hw : w.RandomInRange) (hothers : others hay w.map ≠ [])
    (hmap3 : ∃ k, map3 = getRandomMap w hay k)
    (h : redraw w hay map1 map2 rounds k map3 = some m) :
    ∃ z ∈ others hay w.map, m = some z ∧ some z ≠ map1 ∧ some z ≠ map2 := by
  obtain ⟨h1, h2, hdrawn⟩ := of_redraw h
  have hany : ∃ k, m = getRandomMap w hay k := by
    rcases hdrawn with rfl | hdrawn
    · exact hmap3
    · exact hdrawn
  obtain ⟨k, rfl⟩ := hany
  obtain ⟨z, hz, hzk⟩ := getRandomMap_mem hw hothers k
  rw [hzk] at h1 h2
  exact ⟨z, hz, hzk, h1, h2⟩

/-- **The offer** is made, with three different maps, exactly when there are two more maps than the
first one and the one being played, and the counter does not come to the first one twice. -/
theorem battle_offers_iff {w : Server γ μ} (hw : w.RandomInRange) (hrec : Recurrent w)
    {gamemode : γ} {impl : Implementation γ μ} {a b c : μ} (ha : a ∈ rotation w gamemode impl)
    (hb : b ∈ rotation w gamemode impl) (_ : c ∈ rotation w gamemode impl) (hab : a ≠ b)
    (_ : a ≠ c) (_ : b ≠ c) (s : State μ) (voted : Option μ) (lastindex : Nat) :
    (∃ rounds m1 m2 m3, battle w gamemode impl s voted rounds lastindex =
        some (some m1, some m2, some m3) ∧ m1 ≠ m2 ∧ m1 ≠ m3 ∧ m2 ≠ m3) ↔
      Offerable (others (rotation w gamemode impl) w.map) (first w gamemode impl s voted).1
        lastindex := by
  have hothers : others (rotation w gamemode impl) w.map ≠ [] := by
    by_cases haw : a = w.map
    · have hbw : b ≠ w.map := fun h => hab (haw.trans h.symm)
      exact List.ne_nil_of_mem (List.mem_filter.mpr ⟨hb, decide_eq_true hbw⟩)
    · exact List.ne_nil_of_mem (List.mem_filter.mpr ⟨ha, decide_eq_true haw⟩)
  obtain ⟨first1, hfirst⟩ := Option.isSome_iff_exists.mp
    (first_isSome hw (List.ne_nil_of_mem ha) s voted)
  obtain ⟨map2, hmap2, hsecond⟩ := second_mem (first w gamemode impl s voted).1 lastindex
    hothers
  have hbattle (rounds : Nat) : battle w gamemode impl s voted rounds lastindex =
      (redraw w (rotation w gamemode impl) (some first1) (some map2) rounds
        ((first w gamemode impl s voted).2.draws + 1)
        (getRandomMap w (rotation w gamemode impl) (first w gamemode impl s voted).2.draws)).map
        fun map3 => (some first1, some map2, map3) := by
    rw [← hfirst, ← hsecond]
    rfl
  rw [offerable_iff hothers, hsecond, hfirst]
  constructor
  · rintro ⟨rounds, m1, m2, m3, hoffer, h12, h13, h23⟩
    rw [hbattle] at hoffer
    obtain ⟨map3, hredraw, hmaps⟩ := Option.map_eq_some_iff.mp hoffer
    obtain ⟨rfl, rfl, rfl⟩ : first1 = m1 ∧ map2 = m2 ∧ map3 = some m3 := by simpa using hmaps
    obtain ⟨m, hm, hsome, -, -⟩ := redraw_mem hw hothers ⟨_, rfl⟩ hredraw
    obtain rfl : m3 = m := Option.some.inj hsome
    refine ⟨fun h => h12 (Option.some.inj h).symm, m3, hm, ?_, ?_⟩
    · exact fun h => h13 (Option.some.inj h).symm
    · exact fun h => h23 (Option.some.inj h).symm
  · rintro ⟨hne, z, hz, hz1, hz2⟩
    obtain ⟨d, hd⟩ := exists_getRandomMap hrec hz ((first w gamemode impl s voted).2.draws + 1)
    rw [← hd] at hz1 hz2
    obtain ⟨rounds, m, hredraw⟩ := exists_redraw ⟨hz1, hz2⟩
      (getRandomMap w (rotation w gamemode impl) (first w gamemode impl s voted).2.draws)
    obtain ⟨m3, -, rfl, hm1, hm2⟩ := redraw_mem hw hothers ⟨_, rfl⟩ hredraw
    refine ⟨rounds, first1, map2, m3, ?_, ?_, ?_, ?_⟩
    · rw [hbattle, hredraw]
      rfl
    · exact fun h => hne (congrArg some h.symm)
    · exact fun h => hm1 (congrArg some h.symm)
    · exact fun h => hm2 (congrArg some h.symm)

/-! ## Two rotations -/

/-- A server that plays `ot`, and whose random numbers go round. -/
def roundServer : Server Unit String := ⟨"ot", 0, fun _ => false, 0, 0, fun k m => k % m + 1⟩

theorem roundServer_random : roundServer.RandomInRange ∧ Recurrent roundServer := by
  refine ⟨fun k m hm => ⟨Nat.succ_pos _, Nat.mod_lt k hm⟩, fun m i hi him n => ?_⟩
  refine ⟨i - 1 + m * n, ?_, ?_⟩
  · have hle := Nat.le_mul_of_pos_left n (show 0 < m by omega)
    omega
  · show (i - 1 + m * n) % m + 1 = i
    rw [Nat.add_mul_mod_self_left, Nat.mod_eq_of_lt (by omega)]
    omega

/-- Four maps are enough. -/
theorem battle_offers_of_four :
    ∃ rounds m1 m2 m3, battle roundServer ()
        (.standard fun _ => ["ot", "reissen", "turbine", "complex"]) ⟨0, none, 0⟩ (some "reissen")
        rounds 1 = some (some m1, some m2, some m3) ∧ m1 ≠ m2 ∧ m1 ≠ m3 ∧ m2 ≠ m3 := by
  have htwo : Offerable (others ["ot", "reissen", "turbine", "complex"] "ot") (some "reissen") 1 :=
    ⟨⟨"turbine", by decide, "complex", by decide, by decide⟩, by decide⟩
  exact (battle_offers_iff (a := "ot") (b := "reissen") (c := "turbine") roundServer_random.1
    roundServer_random.2 (by decide) (by decide) (by decide) (by decide) (by decide) (by decide)
    ⟨0, none, 0⟩ (some "reissen") 1).mpr htwo

/-- With three maps of which one is being played, no third one is left. -/
theorem battle_of_three_endless (rounds : Nat) :
    battle roundServer () (.standard fun _ => ["ot", "reissen", "turbine"]) ⟨0, none, 0⟩
      (some "reissen") rounds 1 = none := by
  have hdraw (k : Nat) : getRandomMap roundServer ["ot", "reissen", "turbine"] k =
      some "reissen" ∨ getRandomMap roundServer ["ot", "reissen", "turbine"] k =
        some "turbine" := by
    have hvalue : getRandomMap roundServer ["ot", "reissen", "turbine"] k =
        ["reissen", "turbine"][k % 2]? := rfl
    rcases Nat.mod_two_eq_zero_or_one k with h | h
    · exact Or.inl (hvalue.trans (by rw [h]; rfl))
    · exact Or.inr (hvalue.trans (by rw [h]; rfl))
  have hloop := redraw_eq_none hdraw (hdraw 0) rounds 1
  show (redraw roundServer ["ot", "reissen", "turbine"] (some "reissen") (some "turbine") rounds 1
    (getRandomMap roundServer ["ot", "reissen", "turbine"] 0)).map _ = none
  rw [hloop]
  rfl

/-- Whatever the number of rounds. -/
theorem battle_three_maps_endless : roundServer.RandomInRange ∧ Recurrent roundServer ∧
    ∀ rounds, battle roundServer () (.standard fun _ => ["ot", "reissen", "turbine"]) ⟨0, none, 0⟩
      (some "reissen") rounds 1 = none :=
  ⟨roundServer_random.1, roundServer_random.2, battle_of_three_endless⟩

end MapBattle

end Zuckerserv
