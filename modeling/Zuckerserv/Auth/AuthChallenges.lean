import Mathlib.Data.List.Nodup
import Mathlib.Logic.Function.Basic
import Zuckerserv.Auth.AuthLink

/-!
# The challenges of the auth server

The auth server keeps the challenges of each of its clients in a vector, under ids that the
clients choose. A challenge goes when it is answered, when it has expired, or when there are too
many. The answers that it is compared with live in memory of their own, which is freed with it.

* `purgeauths`, `evict`, `reqauth`, `confauth` — the commands of the clients.
* `Sound` — what is pending has been issued to that client under that id, and has not been freed.
* `Sound.consume` — challenges go, and lines come that they justify.
* `Recent` — no challenge is so old that the difference of the times is small again.
* `challenges_used_once` — the challenges in any run.
-/

namespace Zuckerserv

namespace AuthChallenges

open AuthLink (AUTH_TIME AUTH_LIMIT AUTH_THROTTLE)
open Enet (U32 timeDifference timeDifference_lt)

/-- `authreq`; `answer` points to an answer, the number of those that were made before. Times are
kept whole; the code has their lower 32 bits. -/
structure AuthReq where
  reqtime : Nat
  id : UInt32
  answer : Nat
  deriving DecidableEq

/-- A line of the output. -/
inductive Line
  | chalauth (id : UInt32) (challenge : String)
  | failauth (id : UInt32)
  | succauth (id : UInt32)
  deriving DecidableEq

/-- A line of success for the id. -/
def Line.succeeds (id : UInt32) : Line → Bool
  | .succauth id' => id' == id
  | _ => false

/-- A line with a challenge for the id. -/
def Line.challenges (id : UInt32) : Line → Bool
  | .chalauth id' _ => id' == id
  | _ => false

/-- The fields of `client` that are used. -/
structure Client where
  lastauth : Nat
  authreqs : List AuthReq
  output : List Line

/-- What `genchallenge` has made, with the client, the id and the time it was made for. -/
structure Challenge (κ α : Type) where
  client : κ
  id : UInt32
  time : Nat
  answer : α

/-- The auth server. `freed` are the answers that `freechallenge` has been called for. -/
structure Server (κ α : Type) where
  servtime : Nat
  clients : κ → Client
  made : List (Challenge κ α)
  freed : List Nat

variable {κ α : Type}

/-- The server starts. -/
def Server.init (servtime : Nat) : Server κ α := ⟨servtime, fun _ => ⟨0, [], []⟩, [], []⟩

/-! ## The code -/

section Code

variable [DecidableEq κ]

/-- The challenges `gone` are removed, and `kept` stay; the lines are put out. -/
def consume (s : Server κ α) (c : κ) (gone kept : List AuthReq) (lines : List Line) :
    Server κ α :=
  { s with
    clients := Function.update s.clients c
      { s.clients c with authreqs := kept, output := (s.clients c).output ++ lines }
    freed := s.freed ++ gone.map (·.answer) }

/-- The condition in `purgeauths`. -/
def expired (servtime : Nat) (a : AuthReq) : Bool :=
  decide (timeDifference (servtime % U32) (a.reqtime % U32) ≥ AUTH_TIME)

/-- `void purgeauths(client &c)`. -/
def purgeauths (s : Server κ α) (c : κ) : Server κ α :=
  let gone := (s.clients c).authreqs.takeWhile (expired s.servtime)
  consume s c gone ((s.clients c).authreqs.dropWhile (expired s.servtime))
    (gone.map (.failauth ·.id))

/-- The oldest challenge makes room for another one. -/
def evict (s : Server κ α) (c : κ) : Server κ α :=
  if (s.clients c).authreqs.length ≥ AUTH_LIMIT then
    match (s.clients c).authreqs with
    | [] => s
    | a :: authreqs => consume s c [a] authreqs [.failauth a.id]
  else s

/-- A line is put out. -/
def outputf (s : Server κ α) (c : κ) (line : Line) : Server κ α :=
  consume s c [] (s.clients c).authreqs [line]

/-- `authreqs.add()`, with the challenge and the answer that `genchallenge` makes. -/
def issue (s : Server κ α) (c : κ) (id : UInt32) (challenge : String) (answer : α) :
    Server κ α :=
  { s with
    clients := Function.update s.clients c { s.clients c with
      authreqs := (s.clients c).authreqs ++ [⟨s.servtime, id, s.made.length⟩]
      output := (s.clients c).output ++ [.chalauth id challenge] }
    made := s.made ++ [⟨c, id, s.servtime, answer⟩] }

/-- `void reqauth(client & c, uint id, char * name, char * domain)`; `user` is what `genchallenge`
makes with the key of the user, if there is one. -/
def reqauth (s : Server κ α) (c : κ) (id : UInt32) (user : Option (String × α)) : Server κ α :=
  if timeDifference (s.servtime % U32) ((s.clients c).lastauth % U32) < AUTH_THROTTLE then s
  else
    let s := purgeauths { s with
      clients := Function.update s.clients c { s.clients c with lastauth := s.servtime } } c
    match user with
    | none => outputf s c (.failauth id)
    | some (challenge, answer) => issue (evict s c) c id challenge answer

/-- `void confauth(client &c, uint id, const char *val)`. -/
def confauth (checkchallenge : String → α → Bool) (s : Server κ α) (c : κ) (id : UInt32)
    (val : String) : Server κ α :=
  let s := purgeauths s c
  match (s.clients c).authreqs.find? (·.id == id) with
  | none => outputf s c (.failauth id)
  | some a =>
    let correct := (s.made[a.answer]?).any fun challenge => checkchallenge val challenge.answer
    consume s c [a] ((s.clients c).authreqs.eraseP (·.id == id))
      [if correct then .succauth id else .failauth id]

/-- The commands of the clients, and the clock. -/
inductive Command (κ α : Type)
  | reqauth (c : κ) (id : UInt32) (user : Option (String × α))
  | confauth (c : κ) (id : UInt32) (val : String)
  | elapse (millis : Nat)

/-- One step. -/
def step (checkchallenge : String → α → Bool) (s : Server κ α) : Command κ α → Server κ α
  | .reqauth c id user => reqauth s c id user
  | .confauth c id val => confauth checkchallenge s c id val
  | .elapse millis => { s with servtime := s.servtime + millis }

end Code

/-! ## What holds -/

/-- What is pending is in the order of the times; it has been issued to that client under that id at
that time; it has not been freed, and nothing is freed twice; and there is a line with a challenge
for each that is pending and each that was answered. -/
structure Sound (s : Server κ α) : Prop where
  sorted : ∀ c, (s.clients c).authreqs.Pairwise (·.reqtime ≤ ·.reqtime)
  past : ∀ c, ∀ a ∈ (s.clients c).authreqs, a.reqtime ≤ s.servtime
  issued : ∀ c, ∀ a ∈ (s.clients c).authreqs,
    ∃ answer, s.made[a.answer]? = some ⟨c, a.id, a.reqtime, answer⟩
  distinct : ∀ c, ((s.clients c).authreqs.map (·.answer)).Nodup
  pending : ∀ c, ∀ a ∈ (s.clients c).authreqs, a.answer ∉ s.freed
  once : s.freed.Nodup
  known : ∀ n ∈ s.freed, n < s.made.length
  limited : ∀ c, (s.clients c).authreqs.length ≤ AUTH_LIMIT
  lines : ∀ c id, (s.clients c).output.countP (Line.succeeds id) +
    (s.clients c).authreqs.countP (·.id == id) ≤ (s.clients c).output.countP (Line.challenges id)

namespace Sound

variable {s : Server κ α} {c : κ} {gone kept : List AuthReq} {lines : List Line}

theorem init (servtime : Nat) : Sound (Server.init servtime : Server κ α) where
  sorted _ := List.Pairwise.nil
  past _ _ ha := absurd ha List.not_mem_nil
  issued _ _ ha := absurd ha List.not_mem_nil
  distinct _ := List.nodup_nil
  pending _ _ ha := absurd ha List.not_mem_nil
  once := List.nodup_nil
  known _ hn := absurd hn List.not_mem_nil
  limited _ := Nat.zero_le _
  lines _ _ := Nat.le_refl 0

/-- The answers of different clients differ. -/
theorem answer_ne (h : Sound s) {d : κ} {a b : AuthReq} (ha : a ∈ (s.clients c).authreqs)
    (hb : b ∈ (s.clients d).authreqs) (hne : d ≠ c) : b.answer ≠ a.answer := by
  intro heq
  obtain ⟨x, hx⟩ := h.issued c a ha
  obtain ⟨y, hy⟩ := h.issued d b hb
  rw [heq, hx] at hy
  exact hne (congrArg Challenge.client (Option.some.inj hy)).symm

/-- The answer of a challenge that is pending has been made. -/
theorem answer_lt (h : Sound s) {a : AuthReq} (ha : a ∈ (s.clients c).authreqs) :
    a.answer < s.made.length := by
  obtain ⟨x, hx⟩ := h.issued c a ha
  exact (List.getElem?_eq_some_iff.mp hx).1

/-- What is not looked at may change. -/
theorem congr (h : Sound s) {s' : Server κ α} (hmade : s'.made = s.made)
    (hfreed : s'.freed = s.freed) (htime : s.servtime ≤ s'.servtime)
    (hreqs : ∀ d, (s'.clients d).authreqs = (s.clients d).authreqs)
    (houtput : ∀ d, (s'.clients d).output = (s.clients d).output) : Sound s' where
  sorted d := hreqs d ▸ h.sorted d
  past d a ha := Nat.le_trans (h.past d a (hreqs d ▸ ha)) htime
  issued d a ha := hmade ▸ h.issued d a (hreqs d ▸ ha)
  distinct d := hreqs d ▸ h.distinct d
  pending d a ha := hfreed ▸ h.pending d a (hreqs d ▸ ha)
  once := hfreed ▸ h.once
  known n hn := hmade ▸ h.known n (hfreed ▸ hn)
  limited d := hreqs d ▸ h.limited d
  lines d id := by
    rw [hreqs, houtput]
    exact h.lines d id

variable [DecidableEq κ]

theorem clients_consume_self : (AuthChallenges.consume s c gone kept lines).clients c =
    { s.clients c with authreqs := kept, output := (s.clients c).output ++ lines } :=
  Function.update_self ..

theorem clients_consume_of_ne {d : κ} (h : d ≠ c) :
    (AuthChallenges.consume s c gone kept lines).clients d = s.clients d :=
  Function.update_of_ne h ..

/-- Challenges are removed, with lines that they justify. -/
theorem consume (h : Sound s) (hsub : kept.Sublist (s.clients c).authreqs)
    (hperm : (gone ++ kept).Perm (s.clients c).authreqs)
    (hlines : ∀ id, lines.countP (Line.succeeds id) ≤ gone.countP (·.id == id)) :
    Sound (AuthChallenges.consume s c gone kept lines) := by
  have hgone (a : AuthReq) (ha : a ∈ gone) : a ∈ (s.clients c).authreqs :=
    hperm.subset (List.mem_append_left _ ha)
  have hdistinct : (gone.map (·.answer) ++ kept.map (·.answer)).Nodup := by
    rw [← List.map_append]
    exact (hperm.map _).nodup_iff.mpr (h.distinct c)
  obtain ⟨hnodup, -, hdisjoint⟩ := List.nodup_append.mp hdistinct
  -- What is pending afterwards was pending before, and is not among what goes.
  have hleft (d : κ) : ((AuthChallenges.consume s c gone kept lines).clients d).authreqs.Sublist
      (s.clients d).authreqs := by
    by_cases hd : d = c
    · rw [hd, clients_consume_self]
      exact hsub
    · rw [clients_consume_of_ne hd]
  constructor
  case sorted => exact fun d => (h.sorted d).sublist (hleft d)
  case past => exact fun d a ha => h.past d a ((hleft d).subset ha)
  case issued => exact fun d a ha => h.issued d a ((hleft d).subset ha)
  case distinct => exact fun d => (h.distinct d).sublist ((hleft d).map _)
  case pending =>
    intro d a ha hfreed
    rcases List.mem_append.mp hfreed with hfreed | hfreed
    · exact h.pending d a ((hleft d).subset ha) hfreed
    · obtain ⟨b, hb, heq⟩ := List.mem_map.mp hfreed
      by_cases hd : d = c
      · rw [hd, clients_consume_self] at ha
        exact hdisjoint _ hfreed _ (List.mem_map_of_mem ha) rfl
      · rw [clients_consume_of_ne hd] at ha
        exact h.answer_ne (hgone b hb) ha hd heq.symm
  case once =>
    refine List.nodup_append.mpr ⟨h.once, hnodup, fun n hn m hm heq => ?_⟩
    obtain ⟨a, ha, rfl⟩ := List.mem_map.mp hm
    exact h.pending c a (hgone a ha) (heq ▸ hn)
  case known =>
    intro n hn
    rcases List.mem_append.mp hn with hn | hn
    · exact h.known n hn
    · obtain ⟨a, ha, rfl⟩ := List.mem_map.mp hn
      obtain ⟨x, hx⟩ := h.issued c a (hgone a ha)
      exact (List.getElem?_eq_some_iff.mp hx).1
  case limited => exact fun d => Nat.le_trans (hleft d).length_le (h.limited d)
  case lines =>
    intro d id
    by_cases hd : d = c
    · have hcount := h.lines c id
      have hsplit := hperm.countP_eq (·.id == id)
      have hsucceeds := hlines id
      rw [List.countP_append] at hsplit
      rw [hd, clients_consume_self]
      dsimp only
      rw [List.countP_append, List.countP_append]
      omega
    · rw [clients_consume_of_ne hd]
      exact h.lines d id

theorem clients_issue_self (id : UInt32) (challenge : String) (answer : α) :
    (issue s c id challenge answer).clients c = { s.clients c with
      authreqs := (s.clients c).authreqs ++ [⟨s.servtime, id, s.made.length⟩]
      output := (s.clients c).output ++ [.chalauth id challenge] } :=
  Function.update_self ..

theorem clients_issue_of_ne {d : κ} (h : d ≠ c) (id : UInt32) (challenge : String) (answer : α) :
    (issue s c id challenge answer).clients d = s.clients d :=
  Function.update_of_ne h ..

/-- A challenge is added where there is room. -/
theorem issue (h : Sound s) (hroom : (s.clients c).authreqs.length < AUTH_LIMIT) (id : UInt32)
    (challenge : String) (answer : α) : Sound (issue s c id challenge answer) := by
  have hmade (d : κ) (a : AuthReq) (ha : a ∈ (s.clients d).authreqs) :
      ∃ x, (s.made ++ [⟨c, id, s.servtime, answer⟩])[a.answer]? =
        some ⟨d, a.id, a.reqtime, x⟩ := by
    rw [List.getElem?_append_left (h.answer_lt ha)]
    exact h.issued d a ha
  have hsplit (d : κ) (P : AuthReq → Prop) (hold : ∀ a ∈ (s.clients d).authreqs, P a)
      (hnew : d = c → P ⟨s.servtime, id, s.made.length⟩) :
      ∀ a ∈ ((AuthChallenges.issue s c id challenge answer).clients d).authreqs, P a := by
    by_cases hd : d = c
    · subst hd
      rw [clients_issue_self]
      intro a ha
      rcases List.mem_append.mp ha with ha | ha
      · exact hold a ha
      · rw [List.mem_singleton.mp ha]
        exact hnew rfl
    · rw [clients_issue_of_ne hd]
      exact hold
  constructor
  case sorted =>
    intro d
    by_cases hd : d = c
    · rw [hd, clients_issue_self]
      refine List.pairwise_append.mpr ⟨h.sorted c, List.pairwise_singleton _ _, ?_⟩
      intro a ha b hb
      rw [List.mem_singleton.mp hb]
      exact h.past c a ha
    · rw [clients_issue_of_ne hd]
      exact h.sorted d
  case past => exact fun d => hsplit d _ (h.past d) fun _ => Nat.le_refl _
  case issued =>
    refine fun d => hsplit d _ (hmade d) fun hd => ⟨answer, ?_⟩
    rw [hd]
    exact List.getElem?_concat_length
  case distinct =>
    intro d
    by_cases hd : d = c
    · rw [hd, clients_issue_self, List.map_append]
      refine List.nodup_append.mpr ⟨h.distinct c, List.nodup_singleton _, ?_⟩
      intro n hn m hm heq
      obtain ⟨a, ha, rfl⟩ := List.mem_map.mp hn
      rw [List.map_singleton, List.mem_singleton] at hm
      exact Nat.ne_of_lt (h.answer_lt ha) (heq.trans hm)
    · rw [clients_issue_of_ne hd]
      exact h.distinct d
  case pending =>
    exact fun d => hsplit d _ (h.pending d) fun _ hn => Nat.lt_irrefl _ (h.known _ hn)
  case once => exact h.once
  case known =>
    intro n hn
    exact Nat.lt_of_lt_of_le (h.known n hn) (List.sublist_append_left ..).length_le
  case limited =>
    intro d
    by_cases hd : d = c
    · rw [hd, clients_issue_self, List.length_append]
      exact hroom
    · rw [clients_issue_of_ne hd]
      exact h.limited d
  case lines =>
    intro d i
    by_cases hd : d = c
    · have hcount := h.lines c i
      rw [hd, clients_issue_self]
      simp only [List.countP_append, List.countP_singleton, Line.succeeds, Line.challenges,
        Bool.false_eq_true, if_false, Nat.add_zero, ← Nat.add_assoc]
      exact Nat.add_le_add_right hcount _
    · rw [clients_issue_of_ne hd]
      exact h.lines d i

/-- What is found, with the rest. -/
theorem perm_eraseP {p : AuthReq → Bool} {l : List AuthReq} {a : AuthReq}
    (h : l.find? p = some a) : ([a] ++ l.eraseP p).Perm l := by
  obtain ⟨ha, before, after, rfl, hbefore⟩ := List.find?_eq_some_iff_append.mp h
  rw [List.eraseP_append_right _ fun b hb => by simpa using hbefore b hb,
    List.eraseP_cons_of_pos ha, List.singleton_append]
  exact List.perm_middle.symm

theorem purgeauths (h : Sound s) (c : κ) : Sound (purgeauths s c) := by
  let gone := (s.clients c).authreqs.takeWhile (expired s.servtime)
  refine h.consume (List.dropWhile_sublist _) ?_ fun id => ?_
  · rw [List.takeWhile_append_dropWhile]
  · have hfails : (gone.map (.failauth ·.id)).countP (Line.succeeds id) = 0 := by
      rw [List.countP_map]
      exact List.countP_eq_zero.mpr fun a _ => Bool.false_ne_true
    exact hfails ▸ Nat.zero_le _

theorem outputf_failauth (h : Sound s) (c : κ) (id : UInt32) :
    Sound (outputf s c (.failauth id)) :=
  h.consume (List.Sublist.refl _) (List.Perm.refl _) fun _ => Nat.le_refl 0

theorem evict (h : Sound s) (c : κ) : Sound (evict s c) := by
  unfold AuthChallenges.evict
  split
  · split
    · exact h
    · next a authreqs heq =>
      refine h.consume ?_ ?_ fun _ => Nat.zero_le _
      · rw [heq]
        exact List.sublist_cons_self a authreqs
      · rw [heq]
        exact List.Perm.refl _
  · exact h

/-- There is room behind `evict`. -/
theorem length_evict_lt (h : Sound s) (c : κ) :
    ((AuthChallenges.evict s c).clients c).authreqs.length < AUTH_LIMIT := by
  have hlimit := h.limited c
  unfold AuthChallenges.evict
  split
  · split
    · next heq =>
      rw [heq]
      exact Nat.zero_lt_succ _
    · next a authreqs heq =>
      rw [heq] at hlimit
      rw [clients_consume_self]
      exact hlimit
  · next hlt => exact Nat.not_le.mp hlt

theorem reqauth (h : Sound s) (c : κ) (id : UInt32) (user : Option (String × α)) :
    Sound (reqauth s c id user) := by
  have hlast : Sound { s with
      clients := Function.update s.clients c { s.clients c with lastauth := s.servtime } } := by
    refine h.congr rfl rfl (Nat.le_refl _) (fun d => ?_) fun d => ?_
    all_goals
      dsimp only
      by_cases hd : d = c
      · rw [hd, Function.update_self]
      · rw [Function.update_of_ne hd]
  unfold AuthChallenges.reqauth
  split
  · exact h
  · cases user with
    | none => exact (hlast.purgeauths c).outputf_failauth c id
    | some user =>
      exact ((hlast.purgeauths c).evict c).issue ((hlast.purgeauths c).length_evict_lt c) id
        user.1 user.2

theorem confauth (h : Sound s) (checkchallenge : String → α → Bool) (c : κ) (id : UInt32)
    (val : String) : Sound (confauth checkchallenge s c id val) := by
  have hpurged := h.purgeauths c
  unfold AuthChallenges.confauth
  dsimp only
  split
  · exact hpurged.outputf_failauth c id
  · next a hfind =>
    refine hpurged.consume List.eraseP_sublist (perm_eraseP hfind) fun i => ?_
    have hid : a.id = id := eq_of_beq (List.find?_some (p := fun a : AuthReq => a.id == id) hfind)
    split
    · apply Nat.le_of_eq
      rw [List.countP_singleton, List.countP_singleton, Line.succeeds, hid]
    · exact Nat.zero_le _

/-- One step keeps it. -/
theorem step (h : Sound s) (checkchallenge : String → α → Bool) (command : Command κ α) :
    Sound (step checkchallenge s command) := by
  cases command with
  | reqauth c id user => exact h.reqauth c id user
  | confauth c id val => exact h.confauth checkchallenge c id val
  | elapse millis => exact h.congr rfl rfl (Nat.le_add_right _ _) (fun _ => rfl) fun _ => rfl

end Sound

/-! ## Successes -/

section Successes

variable [DecidableEq κ] {s s' s'' : Server κ α} {c : κ}

/-- Lines come, but none of them is a success. -/
def Quiet (s s' : Server κ α) : Prop :=
  ∀ d, ∃ lines, (s'.clients d).output = (s.clients d).output ++ lines ∧
    ∀ id, Line.succauth id ∉ lines

omit [DecidableEq κ] in
theorem Quiet.of_eq (h : ∀ d, (s'.clients d).output = (s.clients d).output) : Quiet s s' :=
  fun d => ⟨[], (h d).trans (List.append_nil _).symm, fun _ => List.not_mem_nil⟩

omit [DecidableEq κ] in
theorem Quiet.trans (h : Quiet s s') (h' : Quiet s' s'') : Quiet s s'' := by
  intro d
  obtain ⟨lines, hlines, hquiet⟩ := h d
  obtain ⟨lines', hlines', hquiet'⟩ := h' d
  refine ⟨lines ++ lines', ?_, fun id hmem => ?_⟩
  · rw [hlines', hlines, List.append_assoc]
  · exact (List.mem_append.mp hmem).elim (hquiet id) (hquiet' id)

theorem quiet_consume {gone kept : List AuthReq} {lines : List Line}
    (h : ∀ id, Line.succauth id ∉ lines) : Quiet s (consume s c gone kept lines) := by
  intro d
  by_cases hd : d = c
  · rw [hd, Sound.clients_consume_self]
    exact ⟨lines, rfl, h⟩
  · rw [Sound.clients_consume_of_ne hd]
    exact ⟨[], (List.append_nil _).symm, fun _ => List.not_mem_nil⟩

theorem quiet_purgeauths : Quiet s (purgeauths s c) := by
  refine quiet_consume fun id hmem => ?_
  obtain ⟨a, -, ha⟩ := List.mem_map.mp hmem
  exact absurd ha nofun

theorem quiet_outputf_failauth (id : UInt32) : Quiet s (outputf s c (.failauth id)) :=
  quiet_consume fun _ hmem => absurd (List.mem_singleton.mp hmem) nofun

theorem quiet_evict : Quiet s (evict s c) := by
  unfold evict
  split
  · split
    · exact .of_eq fun _ => rfl
    · exact quiet_consume fun _ hmem => absurd (List.mem_singleton.mp hmem) nofun
  · exact .of_eq fun _ => rfl

theorem quiet_issue (id : UInt32) (challenge : String) (answer : α) :
    Quiet s (issue s c id challenge answer) := by
  intro d
  by_cases hd : d = c
  · rw [hd, Sound.clients_issue_self]
    exact ⟨_, rfl, fun _ hmem => absurd (List.mem_singleton.mp hmem) nofun⟩
  · rw [Sound.clients_issue_of_ne hd]
    exact ⟨[], (List.append_nil _).symm, fun _ => List.not_mem_nil⟩

theorem quiet_reqauth (id : UInt32) (user : Option (String × α)) :
    Quiet s (reqauth s c id user) := by
  unfold reqauth
  split
  · exact .of_eq fun _ => rfl
  · have hlast : Quiet s { s with
        clients := Function.update s.clients c { s.clients c with lastauth := s.servtime } } := by
      refine .of_eq fun d => ?_
      dsimp only
      by_cases hd : d = c
      · rw [hd, Function.update_self]
      · rw [Function.update_of_ne hd]
    cases user with
    | none => exact (hlast.trans quiet_purgeauths).trans (quiet_outputf_failauth id)
    | some user =>
      exact ((hlast.trans quiet_purgeauths).trans quiet_evict).trans (quiet_issue id _ _)

/-- The client `c` answers a challenge that is pending for it under the id, that was issued to it
under that id less than `AUTH_TIME` ago, and the answer is right. -/
def Answered (checkchallenge : String → α → Bool) (s : Server κ α) (c : κ) (id : UInt32)
    (command : Command κ α) : Prop :=
  ∃ val, command = .confauth c id val ∧ ∃ a ∈ (s.clients c).authreqs, a.id = id ∧
    s.servtime - a.reqtime < AUTH_TIME ∧
    ∃ answer, s.made[a.answer]? = some ⟨c, id, a.reqtime, answer⟩ ∧
      checkchallenge val answer = true

/-- An answer comes when none of the challenges that are pending for the client has been there for
the whole range of the clock but `AUTH_TIME`. -/
def Recent (s : Server κ α) (command : Command κ α) : Prop :=
  ∀ c id val, command = .confauth c id val →
    ∀ a ∈ (s.clients c).authreqs, s.servtime - a.reqtime ≤ U32 - AUTH_TIME

omit [DecidableEq κ] in
/-- Where the first one has not expired and is recent, none has. -/
theorem not_expired {l : List AuthReq} {a : AuthReq} {servtime : Nat}
    (hsorted : l.Pairwise (·.reqtime ≤ ·.reqtime)) (hpast : ∀ b ∈ l, b.reqtime ≤ servtime)
    (hrecent : ∀ b ∈ l, servtime - b.reqtime ≤ U32 - AUTH_TIME)
    (ha : a ∈ l.dropWhile (expired servtime)) : servtime - a.reqtime < AUTH_TIME := by
  induction l with
  | nil => exact absurd ha List.not_mem_nil
  | cons b l ih =>
    obtain ⟨hfirst, hrest⟩ := List.pairwise_cons.mp hsorted
    by_cases hb : expired servtime b = true
    · rw [List.dropWhile_cons_of_pos hb] at ha
      exact ih hrest (fun d hd => hpast d (List.mem_cons_of_mem b hd))
        (fun d hd => hrecent d (List.mem_cons_of_mem b hd)) ha
    · rw [List.dropWhile_cons_of_neg hb] at ha
      have hle : b.reqtime ≤ a.reqtime := by
        rcases List.mem_cons.mp ha with rfl | ha
        · exact Nat.le_refl _
        · exact hfirst a ha
      have hpast := hpast b List.mem_cons_self
      have hrecent := hrecent b List.mem_cons_self
      rw [expired, decide_eq_true_eq, Nat.not_le] at hb
      rcases timeDifference_lt hpast (by decide) hb with hyoung | hold
      · omega
      · exact absurd hold (Nat.not_lt.mpr hrecent)

/-- What is pending behind `purgeauths` was pending before, and is not too old. -/
theorem Sound.fresh (h : Sound s)
    (hrecent : ∀ a ∈ (s.clients c).authreqs, s.servtime - a.reqtime ≤ U32 - AUTH_TIME) {a : AuthReq}
    (ha : a ∈ ((AuthChallenges.purgeauths s c).clients c).authreqs) :
    a ∈ (s.clients c).authreqs ∧ s.servtime - a.reqtime < AUTH_TIME := by
  rw [AuthChallenges.purgeauths, clients_consume_self] at ha
  exact ⟨(List.dropWhile_sublist _).subset ha, not_expired (h.sorted c) (h.past c) hrecent ha⟩

/-- A success is put out for a challenge that has been answered. -/
theorem successes (h : Sound s) (checkchallenge : String → α → Bool) (command : Command κ α)
    (hrecent : Recent s command) (c : κ) (id : UInt32) :
    ∃ lines, ((step checkchallenge s command).clients c).output = (s.clients c).output ++ lines ∧
      (Line.succauth id ∈ lines → Answered checkchallenge s c id command) := by
  have hquiet {s' : Server κ α} (hs' : Quiet s s') : ∃ lines, (s'.clients c).output =
      (s.clients c).output ++ lines ∧
        (Line.succauth id ∈ lines → Answered checkchallenge s c id command) := by
    obtain ⟨lines, hlines, hnone⟩ := hs' c
    exact ⟨lines, hlines, fun hmem => absurd hmem (hnone id)⟩
  cases command with
  | reqauth d i user => exact hquiet (quiet_reqauth i user)
  | elapse millis => exact hquiet (.of_eq fun _ => rfl)
  | confauth d i val =>
    have hpurge : Quiet s (purgeauths s d) := quiet_purgeauths
    change ∃ lines, ((confauth checkchallenge s d i val).clients c).output = _ ∧ _
    unfold confauth
    dsimp only
    split
    · exact hquiet (hpurge.trans (quiet_outputf_failauth i))
    · next a hfind =>
      have ha := List.mem_of_find?_eq_some hfind
      have hid : a.id = i := eq_of_beq (List.find?_some (p := fun a : AuthReq => a.id == i) hfind)
      split
      · next hcorrect =>
        by_cases hc : c = d
        · obtain ⟨lines, hlines, hnone⟩ := hpurge d
          rw [hc, Sound.clients_consume_self]
          refine ⟨lines ++ [.succauth i], ?_, fun hmem => ?_⟩
          · dsimp only
            rw [hlines, List.append_assoc]
          · have heq : id = i := by
              rcases List.mem_append.mp hmem with hmem | hmem
              · exact absurd hmem (hnone id)
              · exact Line.succauth.inj (List.mem_singleton.mp hmem)
            obtain ⟨hpending, hfresh⟩ := h.fresh (hrecent d i val rfl) ha
            obtain ⟨answer, hanswer⟩ := h.issued d a hpending
            rw [hid] at hanswer
            rw [heq]
            refine ⟨val, rfl, a, hpending, hid, hfresh, answer, hanswer, ?_⟩
            have hmade : (purgeauths s d).made[a.answer]? = some ⟨d, i, a.reqtime, answer⟩ :=
              hanswer
            rw [hmade] at hcorrect
            exact hcorrect
        · obtain ⟨lines, hlines, hnone⟩ := hpurge c
          rw [Sound.clients_consume_of_ne hc]
          exact ⟨lines, hlines, fun hmem => absurd hmem (hnone id)⟩
      · exact hquiet (hpurge.trans
          (quiet_consume fun _ hmem => absurd (List.mem_singleton.mp hmem) nofun))

end Successes

/-- In any run of the commands of any clients: nothing is freed twice, and what is pending has not
been freed; no client gets more successes under an id than challenges; none has more than
`AUTH_LIMIT` challenges pending; and where no challenge is too old for the clock, a success is put
out for a challenge that is pending, that was issued to the same client under the same id less than
`AUTH_TIME` ago, and that is answered right. -/
theorem challenges_used_once [DecidableEq κ] (checkchallenge : String → α → Bool)
    (servtime : Nat) (commands : List (Command κ α)) :
    let s := Machine.run (step checkchallenge) (Server.init servtime) commands
    s.freed.Nodup ∧ (∀ c, ∀ a ∈ (s.clients c).authreqs, a.answer ∉ s.freed) ∧
    (∀ c id, (s.clients c).output.countP (Line.succeeds id) ≤
      (s.clients c).output.countP (Line.challenges id)) ∧
    (∀ c, (s.clients c).authreqs.length ≤ AUTH_LIMIT) ∧
    ∀ command, Recent s command → ∀ c id, ∃ lines,
      ((step checkchallenge s command).clients c).output = (s.clients c).output ++ lines ∧
        (Line.succauth id ∈ lines → Answered checkchallenge s c id command) := by
  intro s
  have h : Sound s := Machine.run_inv (fun _ command hs => hs.step checkchallenge command)
    (Sound.init servtime) commands
  refine ⟨h.once, h.pending, fun c id => ?_, h.limited, successes h checkchallenge⟩
  exact Nat.le_trans (Nat.le_add_right _ _) (h.lines c id)

/-- A client that gets a challenge, and waits. -/
def waiting (millis : Nat) : List (Command Unit String) :=
  [.reqauth () 7 (some ("challenge", "answer")), .elapse millis]

/-- The answer after 29 seconds. -/
theorem challenges_used_once_waiting :
    let s := Machine.run (step fun val answer => val == answer) (Server.init 20000) (waiting 29000)
    ∃ lines, ((step (fun val answer => val == answer) s (.confauth () 7 "answer")).clients ()).output
        = (s.clients ()).output ++ lines ∧
      (Line.succauth 7 ∈ lines →
        Answered (fun val answer => val == answer) s () 7 (.confauth () 7 "answer")) := by
  refine (challenges_used_once (fun val answer => val == answer) 20000
    (waiting 29000)).2.2.2.2 (.confauth () 7 "answer") ?_ () 7
  rintro c id val - a ha
  have ha' : a = ⟨20000, 7, 0⟩ := List.mem_singleton.mp ha
  rw [ha']
  decide

/-- An answer after 49.7 days, before the clock comes round, succeeds. -/
theorem old_challenge_answered :
    ¬ ∀ (servtime : Nat) (commands : List (Command Unit String)),
      let s := Machine.run (step fun val answer => val == answer) (Server.init servtime) commands
      s.servtime < U32 → ∀ command c id, ∃ lines,
        ((step (fun val answer => val == answer) s command).clients c).output =
          (s.clients c).output ++ lines ∧
        (Line.succauth id ∈ lines →
          Answered (fun val answer => val == answer) s c id command) := by
  intro h
  obtain ⟨lines, hlines, hanswered⟩ :=
    h 20000 (waiting 4294940000) (by decide) (.confauth () 7 "answer") () 7
  have hsucc : Line.succauth 7 ∈ lines := by
    have hlines' : [Line.chalauth 7 "challenge"] ++ [Line.succauth 7] =
        [Line.chalauth 7 "challenge"] ++ lines := hlines
    rw [← List.append_cancel_left hlines']
    exact List.mem_cons_self
  obtain ⟨val, -, a, ha, -, hyoung, -⟩ := hanswered hsucc
  have ha' : a = ⟨20000, 7, 0⟩ := List.mem_singleton.mp ha
  rw [ha'] at hyoung
  exact absurd hyoung (by decide)

end AuthChallenges

end Zuckerserv
