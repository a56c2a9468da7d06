import Zuckerserv.Fps.CaptureBases
import Zuckerserv.Lib.Machine

/-!
# Who is in a base

The counters of a base should never exceed how many clients are there. They are kept by what
clients do: most of it tells the mode where the client has been, some of it does not.

* `NoPhantoms` — the counters do not exceed who is there.
* `Counted`, `counted_next` — all counters fit, and the actions that tell keep that.
* `Proper`, `no_phantom_occupants` — the runs in which all actions tell.
* `slain_occupant` — a client that is slain in a base stays in its counters.
-/

namespace Zuckerserv

namespace Capture

open Ctf (Cn Name)
open Game (Vec)
open Census

/-- How many clients of the team are alive inside the base. -/
def inside (s : Capture) (b : Base) (team : Name) : Nat :=
  s.clients.countP fun c =>
    (s.info c).state = .ALIVE ∧ (s.info c).team = team ∧ b.inside (s.info c).o

/-- No base counts clients that are not there. -/
structure NoPhantoms (s : Capture) : Prop where
  owners : ∀ b ∈ s.bases, b.owners ≤ s.inside b b.owner
  enemies : ∀ b ∈ s.bases, b.enemies ≤ s.inside b b.enemy
  nobody : ∀ b ∈ s.bases, (∀ c ∈ s.clients, (s.info c).state = .ALIVE → ¬ b.inside (s.info c).o) →
    b.owners = 0 ∧ b.enemies = 0

/-! ## Who counts -/

/-- For which team the client counts at the base, if it counts. -/
def Client.occupies (ci : Client) (b : Base) : Option Name :=
  if ci.state = .ALIVE then b.side ci.team ci.gameclip ci.o else none

/-- How many clients count at the base, for each team. -/
def occupants (s : Capture) (b : Base) : Name → Nat :=
  census s.clients fun c => (s.info c).occupies b

/-- The client counts at some base. -/
def Occupies (s : Capture) (cn : Cn) : Prop := ∃ b ∈ s.bases, (s.info cn).occupies b ≠ none

/-- All counters fit. -/
structure Counted (s : Capture) : Prop where
  nodup : s.clients.Nodup
  bare : s.notgotbases = true → s.bases = []
  fits : ∀ b ∈ s.bases, b.Fits (s.occupants b)

variable {s s' : Capture} {cn : Cn} {b : Base} {team : Name}

theorem occupies_of_not_alive {ci : Client} (h : ci.state ≠ .ALIVE) (b : Base) :
    ci.occupies b = none := if_neg h

theorem occupies_of_gameclip {ci : Client} (h : ci.gameclip = true) (b : Base) :
    ci.occupies b = none := by
  unfold Client.occupies
  rw [h, Base.side_clip, ite_self]

theorem occupies_of_nowhere {ci : Client} (h : ci.o = none) (b : Base) : ci.occupies b = none := by
  have hside : b.side ci.team ci.gameclip none = none := by
    refine if_neg fun hside => ?_
    exact absurd (Bool.and_eq_true_iff.mp hside.2.2).2 Bool.false_ne_true
  unfold Client.occupies
  rw [h, hside, ite_self]

theorem occupies_congr (ci : Client) {b b' : Base} (h : b'.holds = b.holds) :
    ci.occupies b' = ci.occupies b := by
  unfold Client.occupies Base.side
  rw [h]

theorem occupants_congr (s : Capture) {b b' : Base} (h : b'.holds = b.holds) :
    s.occupants b' = s.occupants b :=
  funext fun k => census_congr (fun c _ => occupies_congr (s.info c) h) k

theorem not_occupies (h : ¬ s.Occupies cn) (hb : b ∈ s.bases) : (s.info cn).occupies b = none :=
  not_not.mp fun hne => h ⟨b, hb, hne⟩

/-- The clients that `stealbase` finds are counted, if none of them is out of the map. -/
theorem thieves_length (hvalid : b.valid = true)
    (hclip : ∀ c ∈ s.thieves b team, (s.info c).gameclip = false) :
    (s.thieves b team).length ≤ s.occupants b team := by
  have hmem {c : Cn} (hc : c ∈ s.clients) (h : (s.info c).state = .ALIVE ∧ (s.info c).team ≠ [] ∧
      (s.info c).team = team ∧ b.inside (s.info c).o) : (s.info c).occupies b = some team := by
    have hthief : c ∈ s.thieves b team := List.mem_filter.mpr ⟨hc, decide_eq_true h⟩
    obtain ⟨halive, hteam, rfl, hinside⟩ := h
    unfold Client.occupies Base.side Base.holds
    rw [if_pos halive, if_pos ⟨hteam, hclip c hthief, by rw [hvalid, hinside]; rfl⟩]
  unfold thieves occupants census
  rw [← List.countP_eq_length_filter]
  exact List.countP_mono_left fun c hc h => decide_eq_true (hmem hc (of_decide_eq_true h))

/-! ## What the mode is told -/

/-- What `movebases` does to a base. -/
def turn (s : Capture) (team : Name) (oldpos : Place) (oldclip : Bool) (newpos : Place)
    (newclip : Bool) (b : Base) : Base :=
  if team = [] ∨ s.gamemillis ≥ s.gamelimit then b
  else b.moved team (!oldclip && b.inside oldpos) (!newclip && b.inside newpos)
    ((s.thieves b team).map fun c => (s.info c).team)

theorem movebases_eq (s : Capture) (team : Name) (oldpos : Place) (oldclip : Bool) (newpos : Place)
    (newclip : Bool) : s.movebases team oldpos oldclip newpos newclip =
      { s with bases := s.bases.map (s.turn team oldpos oldclip newpos newclip) } := by
  unfold movebases turn
  dsimp only
  split
  · simp only [List.map_id']
  · rfl

theorem holds_turn (s : Capture) (team : Name) (oldpos : Place) (oldclip : Bool) (newpos : Place)
    (newclip : Bool) (b : Base) :
    (s.turn team oldpos oldclip newpos newclip b).holds = b.holds := by
  unfold turn
  split
  · rfl
  · exact Base.holds_moved b team _ _ _

/-- The counters fit after `movebases`, if it does not come too late for a client that leaves. -/
theorem fits_turn {n n' : Name → Nat} (h : b.Fits n) {oldpos newpos : Place}
    {oldclip newclip : Bool}
    (hn : ∀ k, n k + one (b.side team newclip newpos) k ≤ n' k + one (b.side team oldclip oldpos) k)
    (hlate : s.gamemillis ≥ s.gamelimit → ∀ k, n k ≤ n' k)
    (hlength : s.gamemillis < s.gamelimit → b.side team oldclip oldpos ≠ none →
      b.side team newclip newpos ≠ none → b.steal team → (s.thieves b team).length ≤ n' team) :
    (s.turn team oldpos oldclip newpos newclip b).Fits n' := by
  unfold turn
  split
  · rename_i hskip
    refine h.mono fun k => ?_
    rcases hskip with hteam | hmillis
    · have hnone (clip : Bool) (o : Place) : b.side team clip o = none := if_neg fun h => h.1 hteam
      have hle := hn k
      rwa [hnone, hnone] at hle
    · exact hlate hmillis k
  · rename_i hdoes
    obtain ⟨hteam, hmillis⟩ := not_or.mp hdoes
    refine h.moved hteam hn (fun t ht => ?_) fun hold hnew hsteal => ?_
    · obtain ⟨c, hc, rfl⟩ := List.mem_map.mp ht
      exact (of_decide_eq_true (List.mem_filter.mp hc).2).2.2.1
    · rw [List.length_map]
      exact hlength (not_le.mp hmillis) hold hnew hsteal

/-- The bases change so that they fit when a client that has counted as `old` counts as `new`. -/
def Tells (s : Capture) (f : Base → Base) (old new : Base → Option Name) : Prop :=
  ∀ b ∈ s.bases, (f b).holds = b.holds ∧ ∀ n', b.Fits (s.occupants b) →
    (∀ k, s.occupants b k + one (new b) k ≤ n' k + one (old b) k) → (f b).Fits n'

/-- Nothing is told of a client that does not leave. -/
theorem tells_id {old new : Base → Option Name}
    (h : ∀ b ∈ s.bases, old b = none ∨ new b = old b) : s.Tells id old new := by
  refine fun b hb => ⟨rfl, fun n' hfits hn => hfits.mono fun k => ?_⟩
  have hle := hn k
  rcases h b hb with hold | hsame
  · rw [hold, one_none] at hle
    omega
  · rw [hsame] at hle
    omega

/-- The bases are told that a client leaves. -/
theorem tells_leave {o : Place} {old new : Base → Option Name}
    (hold : ∀ b ∈ s.bases, old b = none ∨ old b = b.side team false o)
    (hlate : ∀ b ∈ s.bases, s.gamemillis ≥ s.gamelimit → old b = none) :
    s.Tells (s.turn team o false none true) old new := by
  refine fun b hb => ⟨holds_turn .., fun n' hfits hn => fits_turn hfits (fun k => ?_) ?_ ?_⟩
  · have hle := hn k
    rw [Base.side_clip, one_none]
    rcases hold b hb with h | h
    · rw [h, one_none] at hle
      omega
    · rw [h] at hle
      omega
  · intro hmillis k
    have hle := hn k
    rw [hlate b hb hmillis, one_none] at hle
    omega
  · exact fun _ _ hnew => absurd (Base.side_clip ..) hnew

/-- The bases are told that a client enters. -/
theorem tells_enter (s' : Capture) {o : Place} {old new : Base → Option Name}
    (hold : ∀ b ∈ s.bases, old b = none) (hnew : ∀ b ∈ s.bases, new b = b.side team false o) :
    s.Tells (s'.turn team none true o false) old new := by
  refine fun b hb => ⟨holds_turn .., fun n' hfits hn => fits_turn hfits (fun k => ?_) ?_ ?_⟩
  · have hle := hn k
    rwa [hold b hb, hnew b hb, ← Base.side_clip team none b] at hle
  · intro _ k
    have hle := hn k
    rw [hold b hb, one_none] at hle
    omega
  · exact fun _ hne => absurd (Base.side_clip ..) hne

/-! ## One client acts -/

theorem modifyClient_self (s : Capture) (cn : Cn) (f : Client → Client) :
    (s.modifyClient cn f).info cn = f (s.info cn) := Function.update_self ..

theorem occupants_update (h : s.clients.Nodup) (hcn : cn ∈ s.clients) {x : Client}
    (hclients : s'.clients = s.clients) (hinfo : s'.info = Function.update s.info cn x) (b : Base)
    (k : Name) : s'.occupants b k + one ((s.info cn).occupies b) k =
      s.occupants b k + one (x.occupies b) k := by
  unfold occupants
  rw [hclients, hinfo]
  have heq := census_update (fun c => (s.info c).occupies b)
    (fun c => (Function.update s.info cn x c).occupies b) h hcn (fun c hc => by
      rw [Function.update_of_ne hc]) k
  rwa [Function.update_self] at heq

/-- A client changes, and the bases are told. -/
theorem Counted.act (h : s.Counted) (hcn : cn ∈ s.clients) {x : Client} {f : Base → Base}
    (ht : s.Tells f (s.info cn).occupies x.occupies) (hbases : s'.bases = s.bases.map f)
    (hclients : s'.clients = s.clients) (hinfo : s'.info = Function.update s.info cn x)
    (hgot : s'.notgotbases = s.notgotbases) : s'.Counted := by
  refine ⟨hclients ▸ h.nodup, fun hnot => ?_, fun b hb => ?_⟩
  · rw [hbases, h.bare (hgot ▸ hnot)]
    rfl
  · rw [hbases] at hb
    obtain ⟨b', hb', rfl⟩ := List.mem_map.mp hb
    obtain ⟨hholds, hfits⟩ := ht b' hb'
    rw [occupants_congr s' hholds]
    exact hfits _ (h.fits b' hb') fun k =>
      (occupants_update h.nodup hcn hclients hinfo b' k).ge

/-- A client changes, and does not leave. -/
theorem Counted.modifyClient (h : s.Counted) (hcn : cn ∈ s.clients) {f : Client → Client}
    (hstays : ∀ b ∈ s.bases, (s.info cn).occupies b = none ∨
      (f (s.info cn)).occupies b = (s.info cn).occupies b) : (s.modifyClient cn f).Counted :=
  h.act hcn (tells_id hstays) (List.map_id _).symm rfl rfl rfl

/-- The mode is told that the client leaves, or the client counts nowhere. -/
def Departs (s : Capture) (cn : Cn) (s' : Capture) : Prop :=
  (s' = s ∧ ¬ s.Occupies cn) ∨
    (s' = s.leavebases (s.info cn).team (s.info cn).o ∧ (s.info cn).gameclip = false)

theorem not_occupies_of_none (h : ∀ b ∈ s.bases, (s.info cn).occupies b = none) :
    ¬ s.Occupies cn := by
  rintro ⟨b, hb, hne⟩
  exact hne (h b hb)

theorem departs_died (h : s.Counted) (cn : Cn) : s.Departs cn (s.died cn) := by
  unfold died
  dsimp only
  split
  · rename_i hskip
    refine .inl ⟨rfl, not_occupies_of_none fun b hb => ?_⟩
    rcases hskip with hgot | hclip
    · rw [h.bare hgot] at hb
      exact absurd hb List.not_mem_nil
    · exact occupies_of_gameclip hclip b
  · rename_i htold
    exact .inr ⟨rfl, Bool.eq_false_iff.mpr (not_or.mp htold).2⟩

theorem departs_leavegame (h : s.Counted) (cn : Cn) : s.Departs cn (s.leavegame cn) := by
  unfold leavegame
  dsimp only
  split
  · rename_i hskip
    refine .inl ⟨rfl, not_occupies_of_none fun b hb => ?_⟩
    rcases hskip with hgot | hdead | hclip
    · rw [h.bare hgot] at hb
      exact absurd hb List.not_mem_nil
    · exact occupies_of_not_alive hdead b
    · exact occupies_of_gameclip hclip b
  · rename_i htold
    exact .inr ⟨rfl, Bool.eq_false_iff.mpr (not_or.mp (not_or.mp htold).2).2⟩

/-- A client that departs in time no longer counts. -/
theorem Departs.tells (h : s.Departs cn s') (hlate : s.Occupies cn → s.gamemillis < s.gamelimit)
    (new : Base → Option Name) :
    ∃ f, s' = { s with bases := s.bases.map f } ∧ s.Tells f (s.info cn).occupies new := by
  rcases h with ⟨rfl, hnone⟩ | ⟨rfl, hclip⟩
  · refine ⟨id, ?_, tells_id fun b hb => .inl (not_occupies hnone hb)⟩
    rw [List.map_id]
  · refine ⟨_, movebases_eq .., tells_leave (fun b hb => ?_) fun b hb hmillis => ?_⟩
    · unfold Client.occupies
      rw [hclip]
      split
      · exact .inr rfl
      · exact .inl rfl
    · exact not_occupies (fun h => absurd (hlate h) (not_lt.mpr hmillis)) hb

/-- A client departs, and changes. -/
theorem Counted.departs (h : s.Counted) (hcn : cn ∈ s.clients) (hdeparts : s.Departs cn s')
    (hlate : s.Occupies cn → s.gamemillis < s.gamelimit) (f : Client → Client) :
    (s'.modifyClient cn f).Counted := by
  obtain ⟨g, rfl, ht⟩ := hdeparts.tells hlate (f (s.info cn)).occupies
  exact h.act hcn ht rfl rfl rfl rfl

theorem counted_suicide (h : s.Counted) (hcn : cn ∈ s.clients) {prevented : Bool}
    (hlate : s.Occupies cn → prevented = true ∨ s.gamemillis < s.gamelimit) :
    (s.suicide cn prevented).Counted := by
  unfold suicide
  split
  · exact h
  · rename_i hdies
    obtain ⟨hprevented, -⟩ := not_or.mp hdies
    exact h.departs hcn (departs_died h cn) (fun hin => (hlate hin).resolve_left hprevented) _

theorem suicide_occupies {prevented : Bool} (hprevented : prevented = false) (b : Base) :
    ((s.suicide cn prevented).info cn).occupies b = none := by
  unfold suicide
  split
  · rename_i hskip
    rcases hskip with h | hdead
    · exact absurd (hprevented.symm.trans h) (by decide)
    · exact occupies_of_not_alive hdead b
  · refine occupies_of_not_alive ?_ b
    rw [modifyClient_self]
    exact fun h => by cases h

theorem suicide_clients (s : Capture) (cn : Cn) (prevented : Bool) :
    (s.suicide cn prevented).clients = s.clients := by
  unfold suicide
  split
  · rfl
  · show (s.died cn).clients = s.clients
    unfold died
    dsimp only
    split
    · rfl
    · unfold leavebases
      rw [movebases_eq]

/-- A client that counts nowhere spawns. -/
theorem counted_spawned (h : s.Counted) (hcn : cn ∈ s.clients) (hnone : ¬ s.Occupies cn)
    (x : Client) (hx : x.state = .ALIVE) :
    ((s.modifyClient cn fun _ => x).spawned cn).Counted := by
  unfold spawned
  dsimp only
  rw [modifyClient_self]
  split
  · exact h.modifyClient hcn fun b hb => .inl (not_occupies hnone hb)
  · rename_i htold
    have hclip : x.gameclip = false := Bool.eq_false_iff.mpr (not_or.mp htold).2
    unfold enterbases
    rw [movebases_eq]
    refine h.act (x := x) hcn (tells_enter (s.modifyClient cn fun _ => x)
      (fun b hb => not_occupies hnone hb) fun b _ => ?_) rfl rfl rfl rfl
    unfold Client.occupies
    rw [if_pos hx, hclip]

/-- A client changes its team, and the mode is told. -/
theorem counted_changeteam (h : s.Counted) (hcn : cn ∈ s.clients)
    (halive : (s.info cn).state = .ALIVE)
    (hlate : s.Occupies cn → s.gamemillis < s.gamelimit) (team : Name) :
    ((s.changeteam cn (s.info cn).team team).modifyClient cn fun ci =>
      { ci with team := team }).Counted := by
  unfold changeteam
  dsimp only
  split
  · rename_i hskip
    refine h.modifyClient hcn fun b hb => .inl ?_
    rcases hskip with hgot | hclip
    · rw [h.bare hgot] at hb
      exact absurd hb List.not_mem_nil
    · exact occupies_of_gameclip hclip b
  rename_i htold
  have hclip : (s.info cn).gameclip = false := Bool.eq_false_iff.mpr (not_or.mp htold).2
  have hside (b : Base) : (s.info cn).occupies b =
      b.side (s.info cn).team false (s.info cn).o := by
    unfold Client.occupies
    rw [if_pos halive, hclip]
  unfold enterbases leavebases
  rw [movebases_eq, movebases_eq]
  refine h.act (x := { s.info cn with team := team })
    (f := turn { s with bases := _ } team none true (s.info cn).o false ∘
      s.turn (s.info cn).team (s.info cn).o false none true) hcn (fun b hb => ⟨?_, ?_⟩)
    (List.map_map ..) rfl rfl rfl
  · exact (holds_turn ..).trans (holds_turn ..)
  · intro n' hfits hn
    -- between the two calls the client counts nowhere
    have hcounted (k : Name) : one ((s.info cn).occupies b) k ≤ s.occupants b k :=
      one_le_census (fun c => (s.info c).occupies b) hcn k
    have hleft : (s.turn (s.info cn).team (s.info cn).o false none true b).Fits fun k =>
        s.occupants b k - one ((s.info cn).occupies b) k := by
      refine fits_turn hfits (fun k => ?_) (fun hmillis k => ?_) fun _ _ hne =>
        absurd (Base.side_clip ..) hne
      · have hle := hcounted k
        rw [Base.side_clip, one_none, ← hside b]
        omega
      · rw [not_occupies (fun hin => absurd (hlate hin) (not_lt.mpr hmillis)) hb]
        exact le_rfl
    have hnew : ({ s.info cn with team := team } : Client).occupies b =
        b.side team false (s.info cn).o := by
      unfold Client.occupies
      rw [if_pos halive, hclip]
    refine fits_turn hleft (fun k => ?_) (fun _ k => ?_) fun _ hne => absurd (Base.side_clip ..) hne
    · have hle := hn k
      have hle' := hcounted k
      rw [Base.side_clip, one_none]
      have hsame : (s.turn (s.info cn).team (s.info cn).o false none true b).side team false
          (s.info cn).o = ({ s.info cn with team := team } : Client).occupies b := by
        rw [hnew]
        unfold Base.side
        rw [holds_turn]
      rw [hsame]
      omega
    · have hle := hn k
      have hle' := hcounted k
      show s.occupants b k - one ((s.info cn).occupies b) k ≤ n' k
      omega

/-- A client moves; the clients that a team steals a base with are not out of the map. -/
theorem counted_move (h : s.Counted) (hcn : cn ∈ s.clients) {pos : Vec} {clip : Bool}
    (hlate : ∀ b ∈ s.bases, (s.info cn).occupies b ≠ none →
      ({ s.info cn with o := some pos, gameclip := clip } : Client).occupies b = none →
      s.gamemillis < s.gamelimit)
    (hclip : ∀ b ∈ s.bases, (s.info cn).occupies b ≠ none →
      ({ s.info cn with o := some pos, gameclip := clip } : Client).occupies b ≠ none →
      s.gamemillis < s.gamelimit → b.steal (s.info cn).team →
      ∀ c ∈ s.thieves b (s.info cn).team, (s.info c).gameclip = false) :
    (s.step (.move cn pos clip)).Counted := by
  unfold step
  dsimp only
  split
  · rename_i htold
    have hold (b : Base) : (s.info cn).occupies b =
        b.side (s.info cn).team (s.info cn).gameclip (s.info cn).o := if_pos htold.1
    have hnew (b : Base) :
        ({ s.info cn with o := some pos, gameclip := clip } : Client).occupies b =
          b.side (s.info cn).team clip (some pos) := if_pos htold.1
    rw [movebases_eq]
    refine h.act (x := { s.info cn with o := some pos, gameclip := clip }) hcn
      (fun b hb => ⟨holds_turn .., fun n' hfits hn => fits_turn hfits (fun k => ?_)
        (fun hmillis k => ?_) fun hmillis hleaves henters hsteal => ?_⟩) rfl rfl rfl rfl
    · rw [← hold, ← hnew]
      exact hn k
    · have hle := hn k
      by_cases hcounts : (s.info cn).occupies b = none
      · rw [hcounts, one_none] at hle
        omega
      · have hstays := fun hnone => not_lt.mpr hmillis (hlate b hb hcounts hnone)
        rw [hold] at hcounts hle
        rw [hnew] at hstays hle
        rw [(Base.side_cases ..).resolve_left hcounts,
          (Base.side_cases ..).resolve_left hstays] at hle
        exact Nat.le_of_add_le_add_right hle
    · have hle := hn (s.info cn).team
      rw [hold, hnew, (Base.side_cases ..).resolve_left hleaves,
        (Base.side_cases ..).resolve_left henters] at hle
      have hvalid : b.valid = true := by
        by_contra hvalid
        refine hleaves (if_neg fun hside => hvalid ?_)
        exact (Bool.and_eq_true_iff.mp hside.2.2).1
      have hlength := thieves_length hvalid
        (hclip b hb (hold b ▸ hleaves) (hnew b ▸ henters) hmillis hsteal)
      omega
  · rename_i hskip
    refine h.modifyClient hcn fun b hb => .inl ?_
    rcases not_and_or.mp hskip with hdead | hgot
    · exact occupies_of_not_alive hdead b
    · rw [h.bare (not_not.mp hgot)] at hb
      exact absurd hb List.not_mem_nil

theorem counted_disconnect (h : s.Counted) (hcn : cn ∈ s.clients)
    (hlate : s.Occupies cn → s.gamemillis < s.gamelimit) : (s.step (.disconnect cn)).Counted := by
  obtain ⟨f, heq, ht⟩ := (departs_leavegame h cn).tells hlate fun _ => none
  show Counted { s.leavegame cn with clients := s.clients.filter (· ≠ cn) }
  rw [heq]
  refine ⟨h.nodup.filter _, fun hgot => ?_, fun b hb => ?_⟩
  · show s.bases.map f = []
    rw [h.bare hgot]
    rfl
  · obtain ⟨b', hb', rfl⟩ := List.mem_map.mp hb
    obtain ⟨hholds, hfits⟩ := ht b' hb'
    rw [occupants_congr _ hholds]
    refine hfits _ (h.fits b' hb') fun k => ?_
    exact (census_filter_ne (fun c => (s.info c).occupies b') h.nodup hcn k).ge

/-- A client that has not been there connects; it is dead. -/
theorem counted_connect (h : s.Counted) (cn : Cn) (team : Name) :
    (s.step (.connect cn team)).Counted := by
  unfold step
  dsimp only
  split
  · exact h
  rename_i hnew
  have hnodup : (s.clients ++ [cn]).Nodup := by
    rw [← List.concat_eq_append]
    exact h.nodup.concat hnew
  refine ⟨hnodup, h.bare, fun b hb => ?_⟩
  refine (h.fits b hb).mono fun k => ?_
  unfold occupants
  have hold : census s.clients (fun c => (s.info c).occupies b) k =
      census s.clients (fun c => (Function.update s.info cn
        (⟨.DEAD, team, none, false, -1, false⟩ : Client) c).occupies b) k :=
    census_congr (fun c hc => by
      have hne : c ≠ cn := fun h => hnew (h ▸ hc)
      rw [Function.update_of_ne hne]) k
  rw [hold]
  exact (Nat.le_add_right _ _).trans_eq (census_concat ..).symm

/-! ## The clients enter a map -/

theorem entergame_spec (s : Capture) (cn : Cn) :
    ∃ f, s.entergame cn = { s with bases := s.bases.map f } ∧ ∀ b, (f b).holds = b.holds ∧
      ∀ n n', b.Fits n → (∀ k, n k + one ((s.info cn).occupies b) k ≤ n' k) → (f b).Fits n' := by
  have hmono {n n' : Name → Nat} {x : Option Name} (h : ∀ k, n k + one x k ≤ n' k) (k : Name) :
      n k ≤ n' k := (Nat.le_add_right _ _).trans (h k)
  unfold entergame
  dsimp only
  split
  · exact ⟨id, by rw [List.map_id], fun b => ⟨rfl, fun n n' hfits hn => hfits.mono (hmono hn)⟩⟩
  · rename_i htold
    obtain ⟨halive, hclip⟩ := not_or.mp (not_or.mp htold).2
    have hside (b : Base) : (s.info cn).occupies b =
        b.side (s.info cn).team false (s.info cn).o := by
      unfold Client.occupies
      rw [if_pos (not_not.mp halive), Bool.eq_false_iff.mpr hclip]
    refine ⟨_, movebases_eq .., fun b => ⟨holds_turn .., fun n n' hfits hn =>
      fits_turn hfits (fun k => ?_) (fun _ => hmono hn) fun _ hne =>
        absurd (Base.side_clip ..) hne⟩⟩
    rw [Base.side_clip, one_none, ← hside b]
    exact hn k

/-- After some clients have entered they are counted. -/
theorem enter_spec (done l : List Cn) (s : Capture)
    (h : ∀ b ∈ s.bases, b.Fits (census done fun c => (s.info c).occupies b)) :
    ∃ bases, l.foldl (fun s cn => if (s.info cn).state = .ALIVE then s.entergame cn else s) s =
      { s with bases := bases } ∧
        ∀ b ∈ bases, b.Fits (census (done ++ l) fun c => (s.info c).occupies b) := by
  induction l generalizing s done with
  | nil =>
    refine ⟨s.bases, rfl, ?_⟩
    rwa [List.append_nil]
  | cons cn l ih =>
    rw [List.foldl_cons]
    split
    · obtain ⟨f, heq, hf⟩ := entergame_spec s cn
      rw [heq, List.append_cons]
      refine ih (done ++ [cn]) { s with bases := s.bases.map f } fun b hb => ?_
      obtain ⟨b', hb', rfl⟩ := List.mem_map.mp hb
      obtain ⟨hholds, hfits⟩ := hf b'
      refine hfits _ _ (h b' hb') fun k => ?_
      rw [census_concat]
      simp only [occupies_congr _ hholds, le_refl]
    · rename_i hdead
      rw [List.append_cons]
      refine ih (done ++ [cn]) s fun b hb => (h b hb).mono fun k => ?_
      rw [census_concat]
      exact Nat.le_add_right _ _

/-- The clients enter bases that nobody has been counted at. -/
theorem counted_enterall (hnodup : s.clients.Nodup) (hgot : s.notgotbases = false)
    (hfresh : ∀ b ∈ s.bases, ∀ n, b.Fits n) : s.enterall.Counted := by
  obtain ⟨bases, heq, hfits⟩ := enter_spec [] s.clients s fun b hb => hfresh b hb _
  unfold enterall
  rw [heq]
  exact ⟨hnodup, fun h => absurd (hgot.symm.trans h) (by decide), hfits⟩

theorem fits_take {list : List Base} {l : List Base} (hl : l = []) :
    ∀ b ∈ (l ++ list.map fun b => Base.fresh b.insidebase b.valid).take MAXBASES,
      ∀ n, b.Fits n := by
  intro b hb n
  have hmem := List.mem_of_mem_take hb
  rw [hl, List.nil_append] at hmem
  obtain ⟨b', -, rfl⟩ := List.mem_map.mp hmem
  exact Base.fits_fresh b'.insidebase b'.valid n

theorem counted_parsebases (h : s.Counted) (list : List Base) (commit : Bool) :
    (s.parsebases list commit).Counted := by
  unfold parsebases
  split
  · exact h
  · rename_i hgets
    have hgot : s.notgotbases = true := not_not.mp (not_or.mp hgets).2
    exact counted_enterall (s := { s with bases := _, notgotbases := false }) h.nodup rfl
      (fits_take (h.bare hgot))

theorem counted_setup (hnodup : s.clients.Nodup) (ments : Option (List Base)) :
    (s.setup ments).Counted := by
  unfold setup
  cases ments with
  | none => exact ⟨hnodup, fun _ => rfl, fun b hb => absurd hb List.not_mem_nil⟩
  | some list =>
    exact counted_enterall (s := { s with bases := _, notgotbases := false }) hnodup rfl
      (fits_take (l := []) rfl)

theorem counted_update (h : s.Counted) (curtime : Int) : (s.update curtime).Counted := by
  unfold update
  split
  · exact h
  dsimp only
  have hwon :
      (if s.won then { s with gamelimit := min s.gamelimit s.gamemillis } else s).Counted := by
    split
    · exact ⟨h.nodup, h.bare, h.fits⟩
    · exact h
  generalize (if s.won then { s with gamelimit := min s.gamelimit s.gamemillis } else s) = s'
    at hwon
  split
  · exact hwon
  · rename_i ht
    refine ⟨hwon.nodup, fun hgot => ?_, fun b hb => ?_⟩
    · show s'.bases.map _ = []
      rw [hwon.bare hgot]
      rfl
    · obtain ⟨b', hb', rfl⟩ := List.mem_map.mp hb
      have hfits := (hwon.fits b' hb').update (not_lt.mp ht)
      rwa [← occupants_congr s' (Base.holds_update b' _)] at hfits

/-! ## Every run -/

/-- The mode is told of what the client does. -/
def Told (s : Capture) : Action → Prop
  | .move cn pos clip => ∀ b ∈ s.bases, (s.info cn).occupies b ≠ none →
    if ({ s.info cn with o := some pos, gameclip := clip } : Client).occupies b = none then
      s.gamemillis < s.gamelimit
    else s.gamemillis < s.gamelimit → b.steal (s.info cn).team →
      ∀ c ∈ s.thieves b (s.info cn).team, (s.info c).gameclip = false
  | .spawn cn => s.Occupies cn → (s.info cn).lastspawn < 0
  | .slay cn | .reassign cn => ¬ s.Occupies cn
  | .lagged cn val => val = true → ¬ s.Occupies cn
  | .fakedamage target actor => s.Occupies target → actor = true ∧ s.gamemillis < s.gamelimit
  | .changeteam cn team dosuicide prevented => s.Occupies cn →
    if dosuicide = true ∧ prevented = false then s.gamemillis < s.gamelimit
    else team = (s.info cn).team
  | .suicide cn prevented => s.Occupies cn → prevented = true ∨ s.gamemillis < s.gamelimit
  | .spectator cn val => val = true → s.Occupies cn → s.gamemillis < s.gamelimit
  | .kill cn | .botteam cn _ | .disconnect cn => s.Occupies cn → s.gamemillis < s.gamelimit
  | .respawn _ | .connect .. | .initbases .. | .changemap .. | .tick _ | .changetime _ |
    .update _ => True

/-- The mode is told, if the client is connected. -/
def Proper (s : Capture) (a : Action) : Prop := a.client.all (· ∈ s.clients) = true → s.Told a

/-- Nobody is there. -/
structure Start (s : Capture) : Prop where
  clients : s.clients = []
  bases : s.bases = []

theorem counted_start (h : s.Start) : s.Counted := by
  refine ⟨?_, fun _ => h.bases, fun b hb => ?_⟩
  · rw [h.clients]
    exact List.nodup_nil
  · rw [h.bases] at hb
    exact absurd hb List.not_mem_nil

theorem not_occupies_of_not_alive (h : (s.info cn).state ≠ .ALIVE) : ¬ s.Occupies cn :=
  not_occupies_of_none fun b _ => occupies_of_not_alive h b

/-- What a client that counts nowhere becomes. -/
theorem Counted.absent (h : s.Counted) (hcn : cn ∈ s.clients) (hnone : ¬ s.Occupies cn)
    (f : Client → Client) : (s.modifyClient cn f).Counted :=
  h.modifyClient hcn fun _ hb => .inl (not_occupies hnone hb)

theorem counted_respawn (h : s.Counted) (hcn : cn ∈ s.clients) :
    (s.step (.respawn cn)).Counted := by
  unfold step
  dsimp only
  split
  · rename_i hdead
    refine h.absent hcn (not_occupies_of_not_alive ?_) _
    rw [hdead.1]
    exact fun h => by cases h
  · exact h

theorem counted_spawn (h : s.Counted) (hcn : cn ∈ s.clients) (ht : s.Told (.spawn cn)) :
    (s.step (.spawn cn)).Counted := by
  unfold step
  dsimp only
  split
  · rename_i hspawns
    exact counted_spawned h hcn (fun hin => absurd (ht hin) (not_lt.mpr hspawns.2)) _ rfl
  · exact h

theorem counted_reteam (h : s.Counted) (hcn : cn ∈ s.clients) {dosuicide prevented : Bool}
    (ht : s.Told (.changeteam cn team dosuicide prevented)) :
    (s.step (.changeteam cn team dosuicide prevented)).Counted := by
  unfold step
  dsimp only
  unfold Told at ht
  dsimp only at ht
  by_cases hdies : dosuicide = true ∧ prevented = false
  · rw [if_pos hdies] at ht
    rw [if_pos hdies.1]
    have hclients : cn ∈ (s.suicide cn prevented).clients := by
      rwa [suicide_clients]
    exact (counted_suicide h hcn fun hin => .inr (ht hin)).modifyClient hclients fun b _ =>
      .inl (suicide_occupies hdies.2 b)
  · rw [if_neg hdies] at ht
    have hlives : (if dosuicide = true then s.suicide cn prevented else s) = s := by
      cases dosuicide with
      | false => rfl
      | true =>
        cases prevented with
        | false => exact absurd ⟨rfl, rfl⟩ hdies
        | true =>
          rw [if_pos rfl]
          exact if_pos (.inl rfl)
    rw [hlives]
    by_cases hin : s.Occupies cn
    · rw [ht hin]
      exact h.modifyClient hcn fun b _ => .inr rfl
    · exact h.absent hcn hin _

theorem counted_spectator (h : s.Counted) (hcn : cn ∈ s.clients) {val : Bool}
    (ht : s.Told (.spectator cn val)) : (s.step (.spectator cn val)).Counted := by
  unfold step
  dsimp only
  split
  · rename_i hleaves
    exact h.departs hcn (departs_leavegame h cn) (ht hleaves.2) _
  · split
    · rename_i hplays
      refine h.absent hcn (not_occupies_of_not_alive ?_) _
      rw [hplays.1]
      exact fun h => by cases h
    · exact h

theorem counted_lagged (h : s.Counted) (hcn : cn ∈ s.clients) {val : Bool}
    (ht : s.Told (.lagged cn val)) : (s.step (.lagged cn val)).Counted := by
  unfold step
  dsimp only
  split
  · rename_i hval
    exact h.absent hcn (ht hval) _
  · split
    · rename_i hlagged
      refine h.absent hcn (not_occupies_of_not_alive ?_) _
      rw [hlagged]
      exact fun h => by cases h
    · exact h

/-- What the mode is told of keeps the counters. -/
theorem counted_step (h : s.Counted) {a : Action} (hcn : ∀ cn, a.client = some cn → cn ∈ s.clients)
    (ht : s.Told a) : (s.step a).Counted := by
  cases a with
  | move cn pos clip =>
    refine counted_move h (hcn cn rfl) (fun b hb hold hnew => ?_) fun b hb hold hnew => ?_
    · have hlate := ht b hb hold
      rwa [if_pos hnew] at hlate
    · have hclip := ht b hb hold
      rwa [if_neg hnew] at hclip
  | respawn cn => exact counted_respawn h (hcn cn rfl)
  | spawn cn => exact counted_spawn h (hcn cn rfl) ht
  | kill target =>
    unfold step
    dsimp only
    split
    · exact h.departs (hcn target rfl) (departs_died h target) ht _
    · exact h
  | suicide cn prevented => exact counted_suicide h (hcn cn rfl) ht
  | slay cn =>
    unfold step
    dsimp only
    split
    · exact h.absent (hcn cn rfl) ht _
    · exact h
  | fakedamage target actor =>
    unfold step
    dsimp only
    by_cases hin : s.Occupies target
    · obtain ⟨hactor, hmillis⟩ := ht hin
      rw [if_pos hactor]
      exact h.departs (hcn target rfl) (departs_died h target) (fun _ => hmillis) _
    · split
      · exact h.departs (hcn target rfl) (departs_died h target) (fun h => absurd h hin) _
      · exact h.absent (hcn target rfl) hin _
  | changeteam cn team dosuicide prevented => exact counted_reteam h (hcn cn rfl) ht
  | botteam cn team =>
    unfold step
    dsimp only
    split
    · rename_i halive
      exact counted_changeteam h (hcn cn rfl) halive ht team
    · rename_i hdead
      exact h.absent (hcn cn rfl) (not_occupies_of_not_alive hdead) _
  | reassign cn => exact h.absent (hcn cn rfl) ht fun ci => ci.reassign s.gamemillis
  | spectator cn val => exact counted_spectator h (hcn cn rfl) ht
  | connect cn team => exact counted_connect h cn team
  | disconnect cn => exact counted_disconnect h (hcn cn rfl) ht
  | lagged cn val => exact counted_lagged h (hcn cn rfl) ht
  | initbases list commit => exact counted_parsebases h list commit
  | changemap ments gamelimit =>
    let cleared : Capture := { s with
      info := fun cn => (s.info cn).mapchange
      gamemillis := 0
      gamelimit := gamelimit }
    exact counted_setup (s := cleared) h.nodup ments
  | tick millis => exact ⟨h.nodup, h.bare, h.fits⟩
  | changetime remaining => exact ⟨h.nodup, h.bare, h.fits⟩
  | update curtime => exact counted_update h curtime

theorem counted_next (h : s.Counted) {a : Action} (hproper : s.Proper a) : (s.next a).Counted := by
  unfold next
  split
  · rename_i hclient
    refine counted_step h (fun cn hcn => ?_) (hproper hclient)
    rw [hcn] at hclient
    exact of_decide_eq_true hclient
  · exact h

/-- Who counts is there. -/
theorem occupants_le_inside (s : Capture) (b : Base) (team : Name) :
    s.occupants b team ≤ s.inside b team := by
  refine List.countP_mono_left fun c _ hc => decide_eq_true ?_
  have heq : (s.info c).occupies b = some team := of_decide_eq_true hc
  unfold Client.occupies Base.side at heq
  split at heq
  · rename_i halive
    split at heq
    · rename_i hside
      exact ⟨halive, Option.some.inj heq, (Bool.and_eq_true_iff.mp hside.2.2).2⟩
    · cases heq
  · cases heq

theorem Counted.noPhantoms (h : s.Counted) : s.NoPhantoms := by
  have howners {b : Base} (hb : b ∈ s.bases) : b.owners ≤ s.inside b b.owner :=
    (h.fits b hb).owners_le.trans (Int.ofNat_le.mpr (occupants_le_inside s b b.owner))
  have henemies {b : Base} (hb : b ∈ s.bases) : b.enemies ≤ s.inside b b.enemy :=
    (h.fits b hb).enemies_le.trans (Int.ofNat_le.mpr (occupants_le_inside s b b.enemy))
  refine ⟨fun b hb => howners hb, fun b hb => henemies hb, fun b hb hnobody => ?_⟩
  have hnone (team : Name) : s.inside b team = 0 := by
    refine List.countP_eq_zero.mpr fun c hc hinside => ?_
    obtain ⟨halive, -, hinside⟩ := of_decide_eq_true hinside
    exact hnobody c hc halive hinside
  have howners := howners hb
  have henemies := henemies hb
  rw [hnone] at howners henemies
  exact ⟨Int.le_antisymm howners (h.fits b hb).owners_nonneg,
    Int.le_antisymm henemies (h.fits b hb).enemies_nonneg⟩

/-- **No base counts clients that are not there**, in every run in which the mode is told of what
the clients do. -/
theorem no_phantom_occupants {s₀ : Capture} (hs : s₀.Start) {as : List Action}
    (h : Machine.Along Proper next s₀ as) : (Machine.run next s₀ as).NoPhantoms := by
  have hcounted : (Machine.run next s₀ as).Counted :=
    h.inv (fun _ _ hproper hs => counted_next hs hproper) (counted_start hs)
  exact hcounted.noPhantoms

/-! ## A client that is slain -/

/-- The server before a game: nobody is there. -/
def idle : Capture :=
  ⟨[], false, [], fun _ => ⟨.DEAD, [], none, false, -1, false⟩, 0, 0⟩

theorem start_idle : idle.Start := ⟨rfl, rfl⟩

/-- A game with one base; a client spawns and goes to the base. -/
def toBase : List Action :=
  [.connect 0 [1], .changemap (some [Base.fresh (fun o => o = ⟨0, 0, 0⟩) true]) 600000, .spawn 0,
    .move 0 ⟨0, 0, 0⟩ false]

theorem no_phantom_occupants_toBase :
    Machine.Along Proper next idle toBase ∧ (Machine.run next idle toBase).NoPhantoms := by
  have h : Machine.Along Proper next idle toBase := by
    refine ⟨fun _ => trivial, fun _ => trivial, fun _ => ?_, fun _ => ?_, trivial⟩
    · rintro ⟨b, hb, hne⟩
      exact absurd (occupies_of_not_alive (by decide) b) hne
    · exact fun b _ hne => absurd (occupies_of_nowhere (by decide) b) hne
  exact ⟨h, no_phantom_occupants start_idle h⟩

/-- A client that is slain in a base stays in its counters. -/
theorem slain_occupant : ¬ ∀ (s₀ : Capture), s₀.Start → ∀ as : List Action,
    (Machine.run next s₀ as).NoPhantoms := by
  intro h
  have hnone := h idle start_idle (toBase ++ [.slay 0])
  have hphantom : ∃ b ∈ (Machine.run next idle (toBase ++ [.slay 0])).bases, b.enemies = 1 ∧
      (Machine.run next idle (toBase ++ [.slay 0])).inside b b.enemy = 0 := by
    exact ⟨_, List.mem_cons_self, by decide, by decide⟩
  obtain ⟨b, hb, hone, hnobody⟩ := hphantom
  have hle := hnone.enemies b hb
  rw [hone, hnobody] at hle
  exact absurd hle (by decide)

end Capture

end Zuckerserv
