import Mathlib.Algebra.Order.Group.Int
import Mathlib.Data.List.Count
import Mathlib.Data.List.Nodup
import Zuckerserv.Lib.Machine

/-!
# Balancing teams with bots

The module adds as many bots as the teams differ by, and removes them again. It removes the first
bots of the list, and leaves out a position when the client number that belongs to it is recorded as
that of a flag carrier. A bot that is left out is counted as removed. What the module asks for is
posted, and the server carries it out later; until then the list of the bots is as it was.

* `delbots`, `checkBalance` — the code.
* `execute` — the server carries out what has been posted first.
* `delbots_exact_iff` — when the bots without a flag are removed, and as many as they should be.
* `checkBalance_eq` — a check as a change by some number of bots.
* `bots_accounted` — the counter, in runs whose changes are carried out.
-/

namespace Zuckerserv

namespace BotBalance

open Machine

/-! ## The code -/

/-- What `server.addbot` and `server.delbot` post. -/
inductive Work
  | addbot
  | delbot (cn : Int)
  deriving DecidableEq

/-- The bot that is to be removed. -/
def Work.leaving : Work → Option Int
  | .addbot => none
  | .delbot cn => some cn

/-- The bots of the server, the variables of the module, and what has been posted. -/
structure State where
  /-- `server.bots()`. -/
  bots : List Int
  /-- The client numbers for which `has_flag` is set. -/
  hasFlag : List Int
  botsAdded : Int
  posted : List Work
  /-- The bots of the server that the module has added, for the record. -/
  own : List Int

/-- The bots whose removal has been posted. -/
def State.leaving (s : State) : List Int := s.posted.filterMap Work.leaving

/-- The bots whose removal has not been posted. -/
def State.left (s : State) : List Int := s.bots.filter (· ∉ s.leaving)

/-- The bots that `delbots(num)` removes. -/
def removed (bots hasFlag : List Int) (num : Nat) : List Int :=
  let num := min num bots.length
  (((bots.take num).zipIdx 1).filter fun p => (127 + p.2 : Int) ∉ hasFlag).map (·.1)

/-- `delbots(num)`. -/
def delbots (s : State) (num : Nat) : State :=
  { s with posted := s.posted ++ (removed s.bots s.hasFlag num).map .delbot }

/-- `addbots(num)`. -/
def addbots (s : State) (num : Nat) : State :=
  { s with posted := s.posted ++ List.replicate num .addbot }

/-- `remove_bots()`. -/
def removeBots (s : State) : State :=
  if s.botsAdded > 0 then { delbots s s.botsAdded.natAbs with botsAdded := 0 } else s

/-- What a check reads of the game. -/
structure Game where
  /-- `gamemodeinfo.teams`. -/
  teams : Bool
  mastermode : Int
  /-- `teams.good or 0`. -/
  good : Nat
  /-- `teams.evil or 0`. -/
  evil : Nat

/-- `size_difference`. -/
def Game.sizeDifference (c : Game) : Int := ((c.good : Int) - c.evil).natAbs

/-- `check_balance()`. -/
def checkBalance (s : State) (c : Game) : State :=
  if !c.teams ∨ c.mastermode > 0 then removeBots s
  else if c.sizeDifference > 0 then
    let change := c.sizeDifference - s.botsAdded
    if change ≠ 0 then
      let t := if change < 0 then delbots s change.natAbs else addbots s change.natAbs
      { t with botsAdded := t.botsAdded + change }
    else s
  else removeBots s

/-- What happens on the server. -/
inductive Event
  /-- A player has come, has gone, or has changed the team. -/
  | check (c : Game)
  | takeflag (cn : Int)
  | scoreflag (cn : Int) (c : Game)
  | dropflag (cn : Int) (c : Game)
  | setmastermode (new : String)
  /-- The server has removed all bots. -/
  | mapchange (c : Game)
  /-- What has been posted first is carried out; `cn` is the number of a new bot, if there can be
  one. -/
  | execute (cn : Option Int) (c : Game)

/-- `has_flag[cn] = nil`. -/
def unflag (s : State) (cn : Int) : State := { s with hasFlag := s.hasFlag.filter (· ≠ cn) }

/-- The handlers of `scoreflag` and `dropflag`. -/
def flagGone (s : State) (cn : Int) (c : Game) : State :=
  if cn ∈ s.bots then checkBalance (unflag s cn) c else s

/-- `aiman::addai`: the bot is there, and then there is a check. -/
def addai (s : State) (cn : Int) (c : Game) : State :=
  checkBalance { s with bots := s.bots ++ [cn], own := s.own ++ [cn] } c

/-- A bot is not there any more. -/
def dropBot (s : State) (cn : Int) : State :=
  { s with bots := s.bots.filter (· ≠ cn), own := s.own.filter (· ≠ cn) }

/-- `execute_addbot` and `execute_deletebot`. A bot that goes is in the list during the check that
the event of its leaving brings about. -/
def execute (s : State) (cn : Option Int) (c : Game) : State :=
  match s.posted, cn with
  | [], _ => s
  | .addbot :: posted, none => { s with posted := posted }
  | .addbot :: posted, some cn => addai { s with posted := posted } cn c
  | .delbot b :: posted, _ =>
    if b ∈ s.bots then
      -- The check only adds to what is posted, so that the first may stay in front meanwhile.
      let t := checkBalance s c
      dropBot { t with posted := t.posted.tail } b
    else { s with posted := posted }

/-- The module starts anew. -/
def restart (s : State) : State := ⟨[], [], 0, s.posted, []⟩

/-- The handlers of the events, and the server. -/
def step (s : State) : Event → State
  | .check c => checkBalance s c
  | .takeflag cn => if cn ∈ s.bots then { s with hasFlag := cn :: s.hasFlag } else s
  | .scoreflag cn c => flagGone s cn c
  | .dropflag cn c => flagGone s cn c
  | .setmastermode new => if new ≠ "open" then removeBots s else s
  | .mapchange c => checkBalance (restart s) c
  | .execute cn c => execute s cn c

/-- The module is loaded on a server with bots. -/
def State.init (bots : List Int) : State := ⟨bots, [], 0, [], []⟩

/-! ## Lists without some of their elements -/

section Lists

variable {α : Type} [DecidableEq α] {l r : List α}

theorem length_filter_not_mem (hl : l.Nodup) (hr : r.Nodup) (hsub : r ⊆ l) :
    (l.filter (· ∉ r)).length + r.length = l.length := by
  have hperm : (l.filter (· ∈ r)).Perm r := by
    refine (List.perm_ext_iff_of_nodup (hl.filter _) hr).mpr fun x => ?_
    rw [List.mem_filter, decide_eq_true_eq]
    exact and_iff_right_of_imp fun h => hsub h
  have hsplit := List.length_eq_countP_add_countP (l := l) (fun x => decide (x ∈ r))
  rw [List.countP_eq_length_filter, List.countP_eq_length_filter, hperm.length_eq] at hsplit
  rw [hsplit, Nat.add_comm]
  simp

omit [DecidableEq α] in
/-- Where one test implies another, and as many elements pass both, the tests agree. -/
theorem iff_of_countP_eq {p q : α → Bool} (himp : ∀ x ∈ l, p x → q x)
    (hcount : l.countP p = l.countP q) : ∀ x ∈ l, (p x ↔ q x) := by
  induction l with
  | nil => exact fun x hx => absurd hx List.not_mem_nil
  | cons y l ih =>
    rw [List.forall_mem_cons] at himp ⊢
    have hle := List.countP_mono_left himp.2
    rw [List.countP_cons, List.countP_cons] at hcount
    have hy := himp.1
    by_cases hp : p y = true
    · have hq := hy hp
      rw [if_pos hp, if_pos hq] at hcount
      exact ⟨iff_of_true hp hq, ih himp.2 (by omega)⟩
    · rw [if_neg hp] at hcount
      have hq : ¬ q y = true := by
        intro hq
        rw [if_pos hq] at hcount
        omega
      rw [if_neg hq] at hcount
      exact ⟨iff_of_false hp hq, ih himp.2 hcount⟩

/-- A test passes as many of the first elements as another one does of all, and only such, exactly
when the tests agree on the first elements, and the other one passes all of these or none of the
rest. -/
theorem countP_exact_iff {β γ : Type} {first : List β} {rest : List γ} {p q : β → Bool}
    {r : γ → Bool} {num : Nat} (hlen : first.length ≤ num)
    (hfull : rest.length ≠ 0 → first.length = num) :
    (first.countP p = min num (first.countP q + rest.countP r) ∧ ∀ x ∈ first, p x → q x) ↔
      (∀ x ∈ first, (p x ↔ q x)) ∧ ((∀ x ∈ first, q x) ∨ ∀ y ∈ rest, ¬ r y) := by
  have hq := List.countP_le_length (l := first) (p := q)
  have hr := List.countP_le_length (l := rest) (p := r)
  constructor
  · rintro ⟨hcount, himp⟩
    have hle := List.countP_mono_left himp
    refine ⟨iff_of_countP_eq himp (by omega), ?_⟩
    by_cases hnone : rest.countP r = 0
    · exact Or.inr (List.countP_eq_zero.mp hnone)
    · exact Or.inl (List.countP_eq_length.mp (by omega))
  · rintro ⟨hsame, hall⟩
    have hcount : first.countP p = first.countP q := List.countP_congr hsame
    refine ⟨?_, fun x hx => (hsame x hx).mp⟩
    rcases hall with hall | hall
    · have heq := List.countP_eq_length.mpr hall
      omega
    · have heq := List.countP_eq_zero.mpr hall
      omega

end Lists

/-! ## Removing bots -/

/-- The first bots of the list, with their positions. -/
def firstBots (bots : List Int) (num : Nat) : List (Int × Nat) := (bots.take num).zipIdx 1

theorem removed_eq (bots hasFlag : List Int) (num : Nat) : removed bots hasFlag num =
    ((firstBots bots num).filter fun p => (127 + p.2 : Int) ∉ hasFlag).map (·.1) := by
  rw [removed, firstBots, ← List.take_eq_take_min]

theorem map_fst_firstBots (bots : List Int) (num : Nat) :
    (firstBots bots num).map (·.1) = bots.take num := by
  rw [firstBots, List.zipIdx_map_fst]

theorem removed_sublist (bots hasFlag : List Int) (num : Nat) :
    (removed bots hasFlag num).Sublist (bots.take num) := by
  rw [removed_eq, ← map_fst_firstBots]
  exact List.filter_sublist.map _

theorem removed_subset (bots hasFlag : List Int) (num : Nat) :
    removed bots hasFlag num ⊆ bots :=
  ((removed_sublist bots hasFlag num).trans (List.take_sublist num bots)).subset

theorem nodup_removed {bots : List Int} (hbots : bots.Nodup) (hasFlag : List Int) (num : Nat) :
    (removed bots hasFlag num).Nodup :=
  hbots.sublist ((removed_sublist bots hasFlag num).trans (List.take_sublist num bots))

theorem leaving_delbots (s : State) (num : Nat) :
    (delbots s num).leaving = s.leaving ++ removed s.bots s.hasFlag num := by
  rw [State.leaving, delbots, List.filterMap_append, List.filterMap_map]
  exact congrArg (s.leaving ++ ·) List.filterMap_some

/-- The positions are those of the client numbers, as far as flags are concerned, and either none
of the first bots carries a flag or is about to go, or all the bots behind them do or are. -/
structure Aligned (s : State) (num : Nat) : Prop where
  same : ∀ p ∈ firstBots s.bots num, p.1 ∉ s.leaving →
    ((127 + p.2 : Int) ∉ s.hasFlag ↔ p.1 ∉ s.hasFlag)
  all : (∀ b ∈ s.bots.take num, b ∉ s.hasFlag ∧ b ∉ s.leaving) ∨
    ∀ b ∈ s.bots.drop num, ¬ (b ∉ s.hasFlag ∧ b ∉ s.leaving)

/-- A count over the first bots and the rest. -/
theorem countP_firstBots (bots : List Int) (num : Nat) (p : Int → Bool) :
    bots.countP p = (firstBots bots num).countP (fun x => p x.1) + (bots.drop num).countP p := by
  have hfirst : (firstBots bots num).countP (fun x => p x.1) = (bots.take num).countP p := by
    rw [← map_fst_firstBots, List.countP_map]
    rfl
  rw [hfirst, ← List.countP_append, List.take_append_drop]

theorem length_firstBots (bots : List Int) (num : Nat) :
    (firstBots bots num).length = min num bots.length := by
  rw [firstBots, List.length_zipIdx, List.length_take]

/-- The bots whose removal `delbots(num)` is the first to post. -/
def newlyRemoved (s : State) (num : Nat) : List Int :=
  (removed s.bots s.hasFlag num).filter (· ∉ s.leaving)

theorem length_newlyRemoved (s : State) (num : Nat) : (newlyRemoved s num).length =
    (firstBots s.bots num).countP fun p =>
      decide ((127 + p.2 : Int) ∉ s.hasFlag ∧ p.1 ∉ s.leaving) := by
  rw [newlyRemoved, removed_eq, List.filter_map, List.length_map, List.filter_filter,
    List.countP_eq_length_filter]
  refine congrArg (fun f => (List.filter f _).length) (funext fun p => ?_)
  rw [Bool.decide_and, Bool.and_comm]
  rfl

/-- As many bots as there should be are removed, and only such without a flag. -/
theorem newlyRemoved_exact_iff (s : State) (num : Nat) :
    ((newlyRemoved s num).length = min num (s.left.countP (· ∉ s.hasFlag)) ∧
      ∀ b ∈ newlyRemoved s num, b ∉ s.hasFlag) ↔ Aligned s num := by
  have hlen := length_firstBots s.bots num
  have hdrop := List.length_drop (l := s.bots) (i := num)
  have hleft : s.left.countP (· ∉ s.hasFlag) =
      (firstBots s.bots num).countP (fun p => decide (p.1 ∉ s.hasFlag ∧ p.1 ∉ s.leaving)) +
        (s.bots.drop num).countP (fun b => decide (b ∉ s.hasFlag ∧ b ∉ s.leaving)) := by
    rw [State.left, List.countP_filter,
      ← countP_firstBots s.bots num fun b => decide (b ∉ s.hasFlag ∧ b ∉ s.leaving)]
    refine List.countP_congr fun b _ => ?_
    rw [Bool.and_eq_true, decide_eq_true_eq, decide_eq_true_eq, decide_eq_true_eq]
  have hcarry : (∀ b ∈ newlyRemoved s num, b ∉ s.hasFlag) ↔
      ∀ p ∈ firstBots s.bots num,
        decide ((127 + p.2 : Int) ∉ s.hasFlag ∧ p.1 ∉ s.leaving) = true →
          decide (p.1 ∉ s.hasFlag ∧ p.1 ∉ s.leaving) = true := by
    simp only [newlyRemoved, removed_eq, List.mem_filter, List.mem_map, decide_eq_true_eq]
    constructor
    · intro h p hp hfree
      exact ⟨h p.1 ⟨⟨p, ⟨hp, hfree.1⟩, rfl⟩, hfree.2⟩, hfree.2⟩
    · rintro h b ⟨⟨p, ⟨hp, hfree⟩, rfl⟩, hleaving⟩
      exact (h p hp ⟨hfree, hleaving⟩).1
  rw [length_newlyRemoved, hcarry, hleft, countP_exact_iff (by omega) (by omega)]
  have hsame : (∀ p ∈ firstBots s.bots num,
      (decide ((127 + p.2 : Int) ∉ s.hasFlag ∧ p.1 ∉ s.leaving) = true ↔
        decide (p.1 ∉ s.hasFlag ∧ p.1 ∉ s.leaving) = true)) ↔
      ∀ p ∈ firstBots s.bots num, p.1 ∉ s.leaving →
        ((127 + p.2 : Int) ∉ s.hasFlag ↔ p.1 ∉ s.hasFlag) := by
    simp only [decide_eq_true_eq, and_congr_left_iff]
  have hfirst : (∀ p ∈ firstBots s.bots num,
      decide (p.1 ∉ s.hasFlag ∧ p.1 ∉ s.leaving) = true) ↔
      ∀ b ∈ s.bots.take num, b ∉ s.hasFlag ∧ b ∉ s.leaving := by
    rw [← map_fst_firstBots, List.forall_mem_map]
    simp only [decide_eq_true_eq]
  rw [hsame, hfirst]
  simp only [decide_eq_true_eq]
  exact ⟨fun h => ⟨h.1, h.2⟩, fun h => ⟨h.same, h.all⟩⟩

/-- The bots that are left. -/
theorem left_delbots (s : State) (num : Nat) :
    (delbots s num).left = s.left.filter (· ∉ newlyRemoved s num) := by
  rw [State.left, State.left, leaving_delbots, List.filter_filter]
  refine List.filter_congr fun b _ => ?_
  by_cases hb : b ∈ s.leaving <;> simp [newlyRemoved, hb]

/-- **Removing bots** takes as many away as it should, and none with a flag, exactly when the
positions agree with the client numbers and no bot is left out in favour of one behind it. -/
theorem delbots_exact_iff {s : State} (hs : s.bots.Nodup) (num : Nat) :
    ((delbots s num).left.length + min num (s.left.countP (· ∉ s.hasFlag)) = s.left.length ∧
      ∀ b ∈ s.left, b ∉ (delbots s num).left → b ∉ s.hasFlag) ↔ Aligned s num := by
  have hsub : newlyRemoved s num ⊆ s.left := by
    intro b hb
    obtain ⟨hb, hleaving⟩ := List.mem_filter.mp hb
    exact List.mem_filter.mpr ⟨removed_subset s.bots s.hasFlag num hb, hleaving⟩
  have hgone : (∀ b ∈ s.left, b ∉ (delbots s num).left → b ∉ s.hasFlag) ↔
      ∀ b ∈ newlyRemoved s num, b ∉ s.hasFlag := by
    have hmem (b : Int) (hb : b ∈ s.left) :
        b ∉ (delbots s num).left ↔ b ∈ newlyRemoved s num := by
      simp [left_delbots, hb]
    exact ⟨fun h b hb => h b (hsub hb) ((hmem b (hsub hb)).mpr hb),
      fun h b hb hnot => h b ((hmem b hb).mp hnot)⟩
  have hlength : (delbots s num).left.length + (newlyRemoved s num).length = s.left.length := by
    rw [left_delbots]
    exact length_filter_not_mem (hs.filter _) ((nodup_removed hs _ _).filter _) hsub
  rw [← newlyRemoved_exact_iff, hgone]
  refine and_congr_left fun _ => ?_
  omega

/-! ## Checks -/

/-- By how many bots a check changes the counter. -/
def demand (s : State) (c : Game) : Int :=
  if !c.teams ∨ c.mastermode > 0 ∨ c.sizeDifference = 0 then -max s.botsAdded 0
  else c.sizeDifference - s.botsAdded

/-- A change by `d` bots. -/
def adjust (s : State) (d : Int) : State :=
  let t := if d < 0 then delbots s d.natAbs else addbots s d.natAbs
  { t with botsAdded := t.botsAdded + d }

theorem adjust_zero (s : State) : adjust s 0 = s := by simp [adjust, addbots]

theorem removeBots_eq (s : State) : removeBots s = adjust s (-max s.botsAdded 0) := by
  rw [removeBots]
  split_ifs with hpos
  · have hmax : max s.botsAdded 0 = s.botsAdded := max_eq_left (by omega)
    have hcount : (delbots s s.botsAdded.natAbs).botsAdded + -s.botsAdded = 0 :=
      Int.add_right_neg s.botsAdded
    rw [hmax, adjust, if_pos (by omega), Int.natAbs_neg]
    dsimp only
    rw [hcount]
  · rw [max_eq_right (by omega), neg_zero, adjust_zero]

/-- A check asks for a number of bots, and counts them as added or removed. -/
theorem checkBalance_eq (s : State) (c : Game) : checkBalance s c = adjust s (demand s c) := by
  have hnonneg : 0 ≤ c.sizeDifference := Int.natCast_nonneg _
  rw [checkBalance, demand]
  by_cases hoff : !c.teams ∨ c.mastermode > 0
  · have hor : !c.teams ∨ c.mastermode > 0 ∨ c.sizeDifference = 0 := by tauto
    rw [if_pos hoff, if_pos hor, removeBots_eq s]
  · rw [if_neg hoff]
    by_cases hbalanced : c.sizeDifference = 0
    · rw [if_neg (by omega), if_pos (Or.inr (Or.inr hbalanced)), removeBots_eq s]
    · have hor : ¬ (!c.teams ∨ c.mastermode > 0 ∨ c.sizeDifference = 0) := by tauto
      rw [if_pos (by omega), if_neg hor]
      by_cases hchange : c.sizeDifference - s.botsAdded = 0
      · rw [hchange, adjust_zero]
        exact if_neg (not_not.mpr rfl)
      · exact if_pos hchange

/-! ## The counter -/

/-- The first bots of the list are bots of the module that are not about to go, and none of the
client numbers at their positions is recorded as a flag carrier. -/
def Removable (s : State) (num : Nat) : Prop :=
  num ≤ s.bots.length ∧ ∀ p ∈ firstBots s.bots num,
    (127 + p.2 : Int) ∉ s.hasFlag ∧ p.1 ∈ s.own ∧ p.1 ∉ s.leaving

/-- A change by `d` bots that can be carried out: there are so many bots to remove. -/
def Served (s : State) (d : Int) : Prop := d < 0 → Removable s d.natAbs

/-- The check that an event brings about can be carried out; a bot that is to be added gets a number
that is free; and no work is left when the module starts anew. -/
def Safe (s : State) : Event → Prop
  | .check c => Served s (demand s c)
  | .takeflag _ => True
  | .scoreflag cn c => cn ∈ s.bots → Served (unflag s cn) (demand (unflag s cn) c)
  | .dropflag cn c => cn ∈ s.bots → Served (unflag s cn) (demand (unflag s cn) c)
  | .setmastermode new => new ≠ "open" → Served s (-max s.botsAdded 0)
  | .mapchange c => s.posted = [] ∧ Served (restart s) (demand (restart s) c)
  | .execute cn c =>
    (∀ b posted, s.posted = .delbot b :: posted → Served s (demand s c)) ∧
    ∀ posted, s.posted = .addbot :: posted → ∃ b, cn = some b ∧ b ∉ s.bots ∧
      Served ⟨s.bots ++ [b], s.hasFlag, s.botsAdded, posted, s.own ++ [b]⟩
        (demand ⟨s.bots ++ [b], s.hasFlag, s.botsAdded, posted, s.own ++ [b]⟩ c)

/-- The counter is right: it is the number of the bots that the module has added, there or on their
way, without those whose removal has been posted. -/
structure Counted (s : State) : Prop where
  count : s.botsAdded + s.leaving.length = s.own.length + s.posted.count .addbot
  own_subset : s.own ⊆ s.bots
  bots_nodup : s.bots.Nodup
  own_nodup : s.own.Nodup
  leaving_nodup : s.leaving.Nodup
  leaving_subset : s.leaving ⊆ s.own

theorem removed_of_removable {s : State} {num : Nat} (h : Removable s num) :
    removed s.bots s.hasFlag num = s.bots.take num := by
  have hall : (firstBots s.bots num).filter (fun p => (127 + p.2 : Int) ∉ s.hasFlag) =
      firstBots s.bots num :=
    List.filter_eq_self.mpr fun p hp => decide_eq_true (h.2 p hp).1
  rw [removed_eq, hall, map_fst_firstBots]

theorem Counted.delbots {s : State} (hs : Counted s) {num : Nat} (h : Removable s num) :
    Counted { delbots s num with botsAdded := s.botsAdded - num } := by
  have hleaving : (BotBalance.delbots s num).leaving = s.leaving ++ s.bots.take num := by
    rw [leaving_delbots, removed_of_removable h]
  have hfirst {b : Int} (hb : b ∈ s.bots.take num) : b ∈ s.own ∧ b ∉ s.leaving := by
    rw [← map_fst_firstBots] at hb
    obtain ⟨p, hp, rfl⟩ := List.mem_map.mp hb
    exact (h.2 p hp).2
  have hadds : (BotBalance.delbots s num).posted.count .addbot = s.posted.count .addbot := by
    rw [BotBalance.delbots, List.count_append, Nat.add_eq_left, List.count_eq_zero]
    intro hmem
    obtain ⟨b, -, hb⟩ := List.mem_map.mp hmem
    exact absurd hb nofun
  refine
    { count := ?_
      own_subset := hs.own_subset
      bots_nodup := hs.bots_nodup
      own_nodup := hs.own_nodup
      leaving_nodup := ?_
      leaving_subset := ?_ }
  · have hcount := hs.count
    have hlength := congrArg List.length hleaving
    rw [List.length_append, List.length_take, Nat.min_eq_left h.1] at hlength
    change s.botsAdded - num + ((BotBalance.delbots s num).leaving.length : Int) =
      s.own.length + ((BotBalance.delbots s num).posted.count .addbot : Nat)
    omega
  · change (BotBalance.delbots s num).leaving.Nodup
    rw [hleaving]
    exact List.Nodup.append hs.leaving_nodup
      (hs.bots_nodup.sublist (List.take_sublist num s.bots)) fun b hb hb' => (hfirst hb').2 hb
  · change (BotBalance.delbots s num).leaving ⊆ s.own
    rw [hleaving]
    exact List.append_subset.mpr ⟨hs.leaving_subset, fun b hb => (hfirst hb).1⟩

theorem Counted.addbots {s : State} (hs : Counted s) (num : Nat) :
    Counted { addbots s num with botsAdded := s.botsAdded + num } := by
  have hleaving : (BotBalance.addbots s num).leaving = s.leaving := by
    have hnone : (List.replicate num Work.addbot).filterMap Work.leaving = [] :=
      List.filterMap_eq_nil_iff.mpr fun work hwork => (List.eq_of_mem_replicate hwork) ▸ rfl
    rw [State.leaving, BotBalance.addbots, List.filterMap_append, hnone, List.append_nil]
    rfl
  have hadds : (BotBalance.addbots s num).posted.count .addbot =
      s.posted.count .addbot + num := by
    rw [BotBalance.addbots, List.count_append, List.count_replicate_self]
  refine
    { count := ?_
      own_subset := hs.own_subset
      bots_nodup := hs.bots_nodup
      own_nodup := hs.own_nodup
      leaving_nodup := hleaving.symm ▸ hs.leaving_nodup
      leaving_subset := hleaving.symm ▸ hs.leaving_subset }
  have hcount := hs.count
  have hlength := congrArg List.length hleaving
  change s.botsAdded + num + ((BotBalance.addbots s num).leaving.length : Int) =
    s.own.length + ((BotBalance.addbots s num).posted.count .addbot : Nat)
  omega

/-- A change that can be carried out keeps the counter right. -/
theorem Counted.adjust {s : State} (hs : Counted s) {d : Int} (h : Served s d) :
    Counted (adjust s d) := by
  rw [BotBalance.adjust]
  by_cases hd : d < 0
  · have hneg : s.botsAdded + d = s.botsAdded - d.natAbs := by omega
    have hdel := hs.delbots (h hd)
    rw [← hneg] at hdel
    rw [if_pos hd]
    exact hdel
  · have hpos : s.botsAdded + d = s.botsAdded + d.natAbs := by omega
    have hadd := hs.addbots d.natAbs
    rw [← hpos] at hadd
    rw [if_neg hd]
    exact hadd

theorem Counted.checkBalance {s : State} (hs : Counted s) {c : Game}
    (h : Served s (demand s c)) : Counted (checkBalance s c) := by
  rw [checkBalance_eq]
  exact hs.adjust h

theorem Counted.unflag {s : State} (hs : Counted s) (cn : Int) : Counted (unflag s cn) := { hs with }

theorem Counted.flagGone {s : State} (hs : Counted s) {cn : Int} {c : Game}
    (h : cn ∈ s.bots → Served (BotBalance.unflag s cn) (demand (BotBalance.unflag s cn) c)) :
    Counted (flagGone s cn c) := by
  rw [BotBalance.flagGone]
  split_ifs with hcn
  · exact (hs.unflag cn).checkBalance (h hcn)
  · exact hs

/-- A bot comes that was asked for. -/
theorem Counted.addai {s : State} (hs : Counted s) {posted : List Work}
    (hposted : s.posted = .addbot :: posted) {b : Int} (hb : b ∉ s.bots) {c : Game}
    (h : Served ⟨s.bots ++ [b], s.hasFlag, s.botsAdded, posted, s.own ++ [b]⟩
      (demand ⟨s.bots ++ [b], s.hasFlag, s.botsAdded, posted, s.own ++ [b]⟩ c)) :
    Counted (addai { s with posted := posted } b c) := by
  have hleaving : s.leaving = posted.filterMap Work.leaving := by
    rw [State.leaving, hposted]
    rfl
  have hnew {l : List Int} (hl : l.Nodup) (hsub : l ⊆ s.bots) : (l ++ [b]).Nodup :=
    List.Nodup.append hl (List.nodup_singleton b)
      (List.disjoint_singleton.mpr fun hmem => hb (hsub hmem))
  refine Counted.checkBalance (s := ⟨s.bots ++ [b], s.hasFlag, s.botsAdded, posted, s.own ++ [b]⟩)
    { count := ?_
      own_subset := List.append_subset.mpr ⟨List.subset_append_of_subset_left [b] hs.own_subset,
        List.subset_append_right s.bots [b]⟩
      bots_nodup := hnew hs.bots_nodup (List.Subset.refl _)
      own_nodup := hnew hs.own_nodup hs.own_subset
      leaving_nodup := by
        have hnodup := hs.leaving_nodup
        rw [hleaving] at hnodup
        exact hnodup
      leaving_subset := fun x hx =>
        List.mem_append_left [b] (hs.leaving_subset (hleaving.symm ▸ hx)) } h
  have hcount := hs.count
  rw [hleaving, hposted, List.count_cons_self] at hcount
  change s.botsAdded + ((posted.filterMap Work.leaving).length : Int) =
    ((s.own ++ [b]).length : Int) + (posted.count .addbot : Nat)
  rw [List.length_append, List.length_singleton]
  omega

/-- A bot goes whose removal was posted first. -/
theorem Counted.dropBot {s : State} (hs : Counted s) {b : Int} {posted : List Work}
    (hposted : s.posted = .delbot b :: posted) : Counted (dropBot { s with posted := posted } b) := by
  have hleaving : s.leaving = b :: posted.filterMap Work.leaving := by
    rw [State.leaving, hposted]
    rfl
  have hnodup := hs.leaving_nodup
  have hsub := hs.leaving_subset
  rw [hleaving] at hnodup hsub
  obtain ⟨hnot, hnodup⟩ := List.nodup_cons.mp hnodup
  have hlength := length_filter_not_mem hs.own_nodup (List.nodup_singleton b)
    (List.cons_subset.mpr ⟨hsub List.mem_cons_self, List.nil_subset _⟩)
  have hfilter : s.own.filter (· ≠ b) = s.own.filter (· ∉ [b]) :=
    List.filter_congr fun x _ => by simp only [List.mem_singleton]
  refine
    { count := ?_
      own_subset := fun x hx => ?_
      bots_nodup := hs.bots_nodup.filter _
      own_nodup := hs.own_nodup.filter _
      leaving_nodup := hnodup
      leaving_subset := fun x hx => ?_ }
  · have hcount := hs.count
    rw [hleaving, hposted, List.length_cons, List.count_cons_of_ne (by simp)] at hcount
    change s.botsAdded + ((posted.filterMap Work.leaving).length : Int) =
      ((s.own.filter (· ≠ b)).length : Int) + (posted.count .addbot : Nat)
    rw [hfilter]
    rw [List.length_singleton] at hlength
    omega
  · obtain ⟨hx, hne⟩ := List.mem_filter.mp hx
    exact List.mem_filter.mpr ⟨hs.own_subset hx, hne⟩
  · refine List.mem_filter.mpr ⟨hsub (List.mem_cons_of_mem b hx), decide_eq_true fun heq => ?_⟩
    exact hnot (heq ▸ hx)

/-- A check adds to what is posted. -/
theorem posted_checkBalance (s : State) (c : Game) :
    ∃ more, (checkBalance s c).posted = s.posted ++ more := by
  rw [checkBalance_eq, adjust]
  by_cases hd : demand s c < 0
  · rw [if_pos hd]
    exact ⟨_, rfl⟩
  · rw [if_neg hd]
    exact ⟨_, rfl⟩

/-- What is posted first is carried out. -/
theorem Counted.execute {s : State} (hs : Counted s) {cn : Option Int} {c : Game}
    (h : Safe s (.execute cn c)) : Counted (execute s cn c) := by
  obtain ⟨hdel, hadd⟩ := h
  unfold BotBalance.execute
  split
  · exact hs
  · next posted hposted =>
    obtain ⟨b, hb, -⟩ := hadd posted hposted
    exact absurd hb nofun
  · next posted b hposted =>
    obtain ⟨b', hb', hnew, hserved⟩ := hadd posted hposted
    cases hb'
    exact hs.addai hposted hnew hserved
  · next b posted hposted =>
    have hmem : b ∈ s.leaving := by
      rw [State.leaving, hposted]
      exact List.mem_cons_self
    rw [if_pos (hs.own_subset (hs.leaving_subset hmem))]
    have hcheck := hs.checkBalance (hdel b posted hposted)
    obtain ⟨more, hmore⟩ := posted_checkBalance s c
    rw [hposted, List.cons_append] at hmore
    dsimp only
    rw [hmore]
    exact hcheck.dropBot hmore

/-- One event. -/
theorem counted_step {s : State} {e : Event} (h : Safe s e) (hs : Counted s) :
    Counted (step s e) := by
  cases e with
  | check c => exact hs.checkBalance h
  | takeflag cn =>
    rw [step]
    split_ifs
    · exact { hs with }
    · exact hs
  | scoreflag cn c => exact hs.flagGone h
  | dropflag cn c => exact hs.flagGone h
  | setmastermode new =>
    rw [step]
    split_ifs with hnew
    · rw [removeBots_eq s]
      exact hs.adjust (h hnew)
    · exact hs
  | mapchange c =>
    have hempty : Counted (restart s) := by
      rw [restart, h.1]
      exact ⟨rfl, List.nil_subset _, List.nodup_nil, List.nodup_nil, List.nodup_nil,
        List.nil_subset _⟩
    exact hempty.checkBalance h.2
  | execute cn c => exact hs.execute h

/-- **The bots of the module.** A removal takes as many bots as it should, and none with a flag,
exactly when the positions agree with the client numbers and no bot is left out in favour of one
behind it. In every run in which the changes that the checks ask for are carried out on the bots of
the module, the counter is the number of the bots that it has added, there or on their way, without
those whose removal has been posted. -/
theorem bots_accounted {s : State} (hs : s.bots.Nodup) (num : Nat) {bots : List Int}
    (hbots : bots.Nodup) {es : List Event} (hsafe : Along Safe step (State.init bots) es) :
    (((delbots s num).left.length + min num (s.left.countP (· ∉ s.hasFlag)) = s.left.length ∧
      ∀ b ∈ s.left, b ∉ (delbots s num).left → b ∉ s.hasFlag) ↔ Aligned s num) ∧
    let t := Machine.run step (State.init bots) es
    t.botsAdded + t.leaving.length = t.own.length + t.posted.count .addbot := by
  refine ⟨delbots_exact_iff hs num, ?_⟩
  have hinit : Counted (State.init bots) :=
    ⟨rfl, List.nil_subset _, hbots, List.nodup_nil, List.nodup_nil, List.nil_subset _⟩
  exact (hsafe.inv (fun s e => counted_step) hinit).count

/-- Two bots are asked for while a third player comes, and then one of them is removed. -/
def twoBots : List Event :=
  [.check ⟨true, 0, 2, 0⟩, .execute (some 128) ⟨true, 0, 3, 1⟩, .execute (some 129) ⟨true, 0, 3, 1⟩,
    .check ⟨true, 0, 3, 2⟩]

/-- The bots come, and one of them goes; nobody carries a flag. -/
theorem bots_accounted_two :
    (delbots ⟨[128, 129], [], 2, [], [128, 129]⟩ 1).left.length + min 1 2 = 2 ∧
      (Machine.run step (State.init []) twoBots).botsAdded +
        (Machine.run step (State.init []) twoBots).leaving.length =
        (Machine.run step (State.init []) twoBots).own.length +
          (Machine.run step (State.init []) twoBots).posted.count .addbot := by
  have haligned : Aligned ⟨[128, 129], [], 2, [], [128, 129]⟩ 1 :=
    ⟨by decide, Or.inl (by decide)⟩
  have hsafe : Along Safe step (State.init []) twoBots := by
    refine ⟨fun h => absurd h (by decide), ⟨nofun, ?_⟩, ⟨nofun, ?_⟩,
      fun _ => ⟨by decide, by decide⟩, trivial⟩
    · rintro posted hposted
      cases hposted
      exact ⟨128, rfl, by decide, fun h => absurd h (by decide)⟩
    · rintro posted hposted
      cases hposted
      exact ⟨129, rfl, by decide, fun h => absurd h (by decide)⟩
  have hnodup : (State.mk [128, 129] [] 2 [] [128, 129]).bots.Nodup := by decide
  obtain ⟨hexact, hcount⟩ := bots_accounted hnodup 1 List.nodup_nil hsafe
  exact ⟨(hexact.mpr haligned).1, hcount⟩

/-- The first of two bots takes the flag: none is removed, and one is counted as removed. And when
two checks come before the server has carried out what the first one asked for, the same bot is
counted as removed twice. -/
theorem bots_drift :
    (delbots ⟨[128, 129], [128], 2, [], [128, 129]⟩ 1).left = [128, 129] ∧
      (let t := Machine.run step (State.init [])
        [.check ⟨true, 0, 2, 0⟩, .execute (some 128) ⟨true, 0, 3, 1⟩,
          .execute (some 129) ⟨true, 0, 3, 1⟩, .takeflag 128, .check ⟨true, 0, 1, 0⟩]
      t.botsAdded = 1 ∧ t.posted = [] ∧ t.own = [128, 129]) ∧
      let t := Machine.run step (State.init [])
        [.check ⟨true, 0, 2, 0⟩, .execute (some 128) ⟨true, 0, 3, 1⟩,
          .execute (some 129) ⟨true, 0, 3, 1⟩, .check ⟨true, 0, 1, 0⟩, .check ⟨true, 0, 0, 0⟩,
          .execute none ⟨true, 0, 0, 0⟩, .execute none ⟨true, 0, 0, 0⟩]
      t.botsAdded = 0 ∧ t.posted = [] ∧ t.own = [129] := by
  decide

end BotBalance

end Zuckerserv
