import Zuckerserv.Auth.AuthLink
import Zuckerserv.Lib.Table

/-!
# The replies that are under way

For each id the replies that are under way are determined by what the game server and the auth
server have of its request: a challenge if it has not been received, and at most one reply that
completes the request, when the auth server has dropped it.

* `Awaits` — the replies that a request of the game server can wait for.
* `Tidy` — what is under way, in a run in which every answer finds its request.
* `served_run` — every reply of such a run is read.
-/

namespace Zuckerserv

namespace AuthLink

open Machine Table

/-! ## What is kept -/

/-- The replies for an id that are under way. -/
def repliesOf (replies : List Reply) (id : Nat) : List Reply := replies.filter (·.id == id)

/-- The id that a line asks the auth server for. -/
def askedId (line : Text) : Option Nat :=
  match parseLine line with
  | some (.reqauth id _ _) => some id
  | _ => none

/-- The ids that the auth server has still to be asked for. -/
def askedIds (lines : List Text) : List Nat := lines.filterMap askedId

/-- The ids of the requests of the auth server. -/
def openIds (authreqs : List AuthReq) : List Nat := authreqs.map (·.id)

/-- The replies that a request can wait for. -/
def Awaits (r : Pending) (id : Nat) (replies : List Reply) : Prop :=
  replies = [] ∨ (replies = [.chalauth id] ∧ r.challenged = false) ∨ replies = [.failauth id] ∨
    (replies = [.chalauth id, .failauth id] ∧ r.challenged = false) ∨
    (replies = [.succauth id] ∧ r.challenged = true ∧ r.completionHandler = .answer)

/-- How often the handler of a request has been called with a challenge. -/
def challengeCount (calls : List Call) (id : Nat) : Nat :=
  calls.countP fun c => c.id == id && c.challenges

/-- How often a request has been completed. -/
def completionCount (calls : List Call) (id : Nat) : Nat :=
  calls.countP fun c => c.id == id && !c.challenges

/-- What is under way. -/
structure Tidy (s : Link) : Prop where
  served : Served s
  gone : ∀ id, s.pendingRequests id = none →
    repliesOf s.replies id = [] ∧ id ∉ askedIds s.lines ∧ id ∉ openIds s.authreqs
  pending : ∀ id r, s.pendingRequests id = some r → r.completed = false ∧
    (r.completionHandler = .answer → r.challenged = true) ∧ Awaits r id (repliesOf s.replies id)
  opened : ∀ id ∈ openIds s.authreqs,
    repliesOf s.replies id = [] ∨ repliesOf s.replies id = [.chalauth id]
  asked : ∀ id ∈ askedIds s.lines, repliesOf s.replies id = [] ∧ id ∉ openIds s.authreqs ∧
    ∀ r, s.pendingRequests id = some r → r.challenged = false
  asked_nodup : (askedIds s.lines).Nodup
  open_nodup : (openIds s.authreqs).Nodup
  answered : ∀ line ∈ s.lines, ∀ id val, parseLine line = some (.confauth id val) →
    id ∈ s.requested ∧
      ∀ r, s.pendingRequests id = some r → r.challenged = true ∧ r.completionHandler = .answer
  plain : ∀ line ∈ s.lines, ∀ id name domain, parseLine line ≠ some (.queryId id name domain)
  requested : ∀ id r, s.pendingRequests id = some r → id ∈ s.requested
  calls : ∀ c ∈ s.calls, c.id ∈ s.requested
  unchallenged : ∀ id r, s.pendingRequests id = some r → r.challenged = false →
    challengeCount s.calls id = 0
  uncompleted : ∀ id r, s.pendingRequests id = some r → completionCount s.calls id = 0

variable {s : Link} {id id' : Nat} {reply : Reply} {authreqs : List AuthReq} {r : Pending}

theorem askedIds_append (lines : List Text) (line : Text) :
    askedIds (lines ++ [line]) = askedIds lines ++ (askedId line).toList := by
  rw [askedIds, List.filterMap_append]
  cases h : askedId line <;> simp [h, askedIds]

theorem repliesOf_append (replies : List Reply) (reply : Reply) (id : Nat) :
    repliesOf (replies ++ [reply]) id =
      repliesOf replies id ++ if reply.id = id then [reply] else [] := by
  rw [repliesOf, List.filter_append]
  by_cases hid : reply.id = id
  · rw [if_pos hid, List.filter_cons_of_pos (p := fun x : Reply => x.id == id)
      (beq_iff_eq.mpr hid)]
    rfl
  · rw [if_neg hid, List.filter_cons_of_neg (p := fun x : Reply => x.id == id)
      fun h => hid (beq_iff_eq.mp h)]
    rfl

theorem repliesOf_cons (reply : Reply) (replies : List Reply) (id : Nat) :
    repliesOf (reply :: replies) id =
      if reply.id = id then reply :: repliesOf replies id else repliesOf replies id := by
  by_cases hid : reply.id = id
  · rw [if_pos hid, repliesOf, List.filter_cons_of_pos (p := fun x : Reply => x.id == id)
      (beq_iff_eq.mpr hid)]
    rfl
  · rw [if_neg hid, repliesOf, List.filter_cons_of_neg (p := fun x : Reply => x.id == id)
      fun h => hid (beq_iff_eq.mp h)]
    rfl

/-- The reply that comes first. -/
theorem repliesOf_head {replies : List Reply} (hreplies : s.replies = reply :: replies) :
    repliesOf s.replies reply.id = reply :: repliesOf replies reply.id := by
  rw [hreplies, repliesOf_cons]
  exact if_pos rfl

/-- The replies for other ids when the first one has been taken. -/
theorem repliesOf_tail {replies : List Reply} (hreplies : s.replies = reply :: replies)
    (hne : id ≠ reply.id) : repliesOf replies id = repliesOf s.replies id := by
  rw [hreplies, repliesOf_cons]
  exact (if_neg (Ne.symm hne)).symm

/-- A request is there, and neither has a reply under way nor is at the auth server. -/
structure Idle (s : Link) (id : Nat) : Prop where
  replies : repliesOf s.replies id = []
  not_open : id ∉ openIds s.authreqs
  not_asked : id ∉ askedIds s.lines
  pending : ∃ r, s.pendingRequests id = some r ∧ r.challenged = false

/-! ## The auth server -/

/-- A reply is sent for the request `id` alone. -/
theorem Tidy.emit (h : Tidy s) (id : Nat) (reply : Reply) {authreqs : List AuthReq}
    (hid : reply.id = id)
    (hopen : ∀ id' ∈ openIds authreqs, id' ≠ id → id' ∈ openIds s.authreqs)
    (hnodup : (openIds authreqs).Nodup) (hthere : ∃ r, s.pendingRequests id = some r)
    (hasked : id ∉ askedIds s.lines)
    (hpending : ∀ r, s.pendingRequests id = some r →
      Awaits r id (repliesOf s.replies id ++ [reply]))
    (hopened : id ∈ openIds authreqs →
      repliesOf s.replies id ++ [reply] = [.chalauth id]) :
    Tidy { s with replies := s.replies ++ [reply], authreqs := authreqs } := by
  have hreplies (id' : Nat) : repliesOf (s.replies ++ [reply]) id' =
      repliesOf s.replies id' ++ if id = id' then [reply] else [] := by
    rw [repliesOf_append, hid]
  have hother {id' : Nat} (hne : id' ≠ id) :
      repliesOf (s.replies ++ [reply]) id' = repliesOf s.replies id' := by
    rw [hreplies, if_neg (Ne.symm hne), List.append_nil]
  refine
    { h with
      served := ⟨h.served.reads, h.served.challenge, h.served.completion, h.served.success⟩
      gone := fun id' hnone => ?_
      pending := fun id' r hr => ?_
      opened := fun id' hmem => ?_
      asked := fun id' hmem => ?_
      open_nodup := hnodup }
  · have hne : id' ≠ id := by
      rintro rfl
      obtain ⟨r, hr⟩ := hthere
      exact absurd (hr.symm.trans hnone) nofun
    obtain ⟨hnil, hask, hop⟩ := h.gone id' hnone
    exact ⟨(hother hne).trans hnil, hask, fun hmem => hop (hopen id' hmem hne)⟩
  · obtain ⟨hcompleted, hhandler, hawaits⟩ := h.pending id' r hr
    refine ⟨hcompleted, hhandler, ?_⟩
    by_cases hne : id' = id
    · subst hne
      rw [hreplies, if_pos rfl]
      exact hpending r hr
    · rw [hother hne]
      exact hawaits
  · by_cases hne : id' = id
    · subst hne
      rw [hreplies, if_pos rfl]
      exact .inr (hopened hmem)
    · rw [hother hne]
      exact h.opened id' (hopen id' hmem hne)
  · have hne : id' ≠ id := fun heq => hasked (heq ▸ hmem)
    obtain ⟨hnil, hop, hch⟩ := h.asked id' hmem
    exact ⟨(hother hne).trans hnil, fun hmem' => hop (hopen id' hmem' hne), hch⟩

theorem Idle.emit (h : Idle s id') (hid : reply.id ≠ id')
    (hopen : ∀ k ∈ openIds authreqs, k ∈ openIds s.authreqs) :
    Idle { s with replies := s.replies ++ [reply], authreqs := authreqs } id' where
  replies := by
    rw [repliesOf_append, if_neg hid, List.append_nil]
    exact h.replies
  not_open hmem := h.not_open (hopen id' hmem)
  not_asked := h.not_asked
  pending := h.pending

/-- The request of the auth server is there at the game server. -/
theorem Tidy.of_open (h : Tidy s) (hopen : id ∈ openIds s.authreqs) :
    (∃ r, s.pendingRequests id = some r) ∧ id ∉ askedIds s.lines := by
  constructor
  · cases hr : s.pendingRequests id with
    | none => exact absurd hopen (h.gone id hr).2.2
    | some r => exact ⟨r, rfl⟩
  · exact fun hasked => (h.asked id hasked).2.1 hopen

/-- The auth server drops a request, and sends the reply that completes it. -/
theorem Tidy.finish (h : Tidy s) (hopen : id ∈ openIds s.authreqs)
    (hsub : (openIds authreqs).Sublist (openIds s.authreqs)) (hout : id ∉ openIds authreqs)
    (hreply : reply = .failauth id ∨ (reply = .succauth id ∧ ∀ r, s.pendingRequests id = some r →
      r.challenged = true ∧ r.completionHandler = .answer)) :
    Tidy { s with replies := s.replies ++ [reply], authreqs := authreqs } := by
  obtain ⟨hthere, hasked⟩ := h.of_open hopen
  have hid : reply.id = id := by rcases hreply with rfl | ⟨rfl, -⟩ <;> rfl
  refine h.emit id reply hid (fun id' hmem _ => hsub.subset hmem) (hsub.nodup h.open_nodup) hthere
    hasked (fun r hr => ?_) fun hmem => absurd hmem hout
  obtain ⟨-, -, hawaits⟩ := h.pending id r hr
  rcases h.opened id hopen with hnil | hchal
  · rw [hnil]
    rcases hreply with rfl | ⟨rfl, hanswer⟩
    · exact .inr (.inr (.inl rfl))
    · exact .inr (.inr (.inr (.inr ⟨rfl, hanswer r hr⟩)))
  · have hch : r.challenged = false := by
      rw [hchal] at hawaits
      simpa [Awaits] using hawaits
    rw [hchal]
    rcases hreply with rfl | ⟨rfl, hanswer⟩
    · exact .inr (.inr (.inr (.inl ⟨rfl, hch⟩)))
    · exact absurd (hch.symm.trans (hanswer r hr).1) Bool.false_ne_true

/-- The oldest request is dropped. -/
theorem Tidy.drop_first {a : AuthReq} (h : Tidy s) (hreqs : s.authreqs = a :: authreqs) :
    Tidy { s with replies := s.replies ++ [.failauth a.id], authreqs := authreqs } ∧
      ∀ id', Idle s id' →
        Idle { s with replies := s.replies ++ [.failauth a.id], authreqs := authreqs } id' := by
  have hnodup := h.open_nodup
  rw [hreqs] at hnodup
  have hopen : a.id ∈ openIds s.authreqs := by
    rw [hreqs]
    exact List.mem_cons_self
  have hsub : (openIds authreqs).Sublist (openIds s.authreqs) := by
    rw [hreqs]
    exact List.sublist_cons_self ..
  refine ⟨h.finish hopen hsub (List.nodup_cons.mp hnodup).1 (.inl rfl), fun id' hidle => ?_⟩
  refine hidle.emit (fun heq => hidle.not_open ?_) fun k hk => hsub.subset hk
  change a.id = id' at heq
  exact heq ▸ hopen

/-- Requests that have expired are dropped. -/
theorem Tidy.purgeauths (h : Tidy s) : Tidy (purgeauths s) ∧
    ∀ id', Idle s id' → Idle (AuthLink.purgeauths s) id' := by
  obtain ⟨pendingRequests, stopped, requested, calls, lines, replies, authreqs, lastauth,
    servtime⟩ := s
  unfold AuthLink.purgeauths
  dsimp only
  induction authreqs generalizing replies with
  | nil =>
    rw [List.takeWhile_nil, List.map_nil, List.append_nil]
    exact ⟨h, fun _ hidle => hidle⟩
  | cons a authreqs ih =>
    by_cases ha : expired servtime a = true
    · rw [List.takeWhile_cons_of_pos ha, List.dropWhile_cons_of_pos ha, List.map_cons]
      obtain ⟨hfirst, hidle⟩ := h.drop_first rfl
      obtain ⟨hrest, hidle'⟩ := ih (replies ++ [.failauth a.id]) hfirst
      rw [List.append_assoc] at hrest hidle'
      exact ⟨hrest, fun id' hid' => hidle' id' (hidle id' hid')⟩
    · rw [List.takeWhile_cons_of_neg ha, List.dropWhile_cons_of_neg ha, List.map_nil,
        List.append_nil]
      exact ⟨h, fun _ hidle => hidle⟩

theorem Tidy.evict (h : Tidy s) : Tidy (evict s) ∧
    ∀ id', Idle s id' → Idle (AuthLink.evict s) id' := by
  unfold AuthLink.evict
  split
  · split
    · exact ⟨h, fun _ hidle => hidle⟩
    · exact h.drop_first ‹_›
  · exact ⟨h, fun _ hidle => hidle⟩

theorem Tidy.frame (h : Tidy s) (lastauth servtime : Nat) :
    Tidy { s with lastauth := lastauth, servtime := servtime } :=
  { h with served := ⟨h.served.reads, h.served.challenge, h.served.completion, h.served.success⟩ }

/-- A request that the auth server has not seen yet. -/
theorem Tidy.reqauth (h : Tidy s) (w : World) (hidle : Idle s id) (name domain : Text) :
    Tidy (reqauth w s id name domain) := by
  unfold AuthLink.reqauth
  split
  · exact h
  · have hframe : Tidy { s with lastauth := s.servtime } := h.frame s.servtime s.servtime
    have hidle₀ : Idle { s with lastauth := s.servtime } id :=
      ⟨hidle.replies, hidle.not_open, hidle.not_asked, hidle.pending⟩
    obtain ⟨hpurge, hidle'⟩ := hframe.purgeauths
    have hidle₁ := hidle' id hidle₀
    obtain ⟨r, hr, hch⟩ := hidle₁.pending
    dsimp only
    split
    · refine hpurge.emit id (.failauth id) rfl (fun _ hmem _ => hmem) hpurge.open_nodup ⟨r, hr⟩
        hidle₁.not_asked (fun r' _ => ?_) fun hmem => absurd hmem hidle₁.not_open
      rw [hidle₁.replies]
      exact .inr (.inr (.inl rfl))
    · obtain ⟨hevict, hidle''⟩ := hpurge.evict
      have hidle₂ := hidle'' id hidle₁
      obtain ⟨r₂, hr₂, hch₂⟩ := hidle₂.pending
      refine hevict.emit id (.chalauth id) rfl (fun id' hmem hne => ?_) ?_ ⟨r₂, hr₂⟩
        hidle₂.not_asked (fun r' hr' => ?_) fun _ => ?_
      · rw [openIds, List.map_append] at hmem
        exact (List.mem_append.mp hmem).resolve_right fun hlast =>
          hne (List.mem_singleton.mp hlast)
      · rw [openIds, List.map_append]
        refine List.nodup_append.mpr ⟨hevict.open_nodup, List.nodup_singleton _, ?_⟩
        intro id' hmem id'' hlast heq
        rw [heq, List.mem_singleton.mp hlast] at hmem
        exact hidle₂.not_open hmem
      · cases Option.some.inj (hr₂.symm.trans hr')
        rw [hidle₂.replies]
        exact .inr (.inl ⟨rfl, hch₂⟩)
      · rw [hidle₂.replies]
        rfl

/-- The answer of a request that is there. -/
theorem Tidy.confauth (h : Tidy s) (w : World) (id : Nat) (val : Text)
    (hopen : id ∈ openIds (AuthLink.purgeauths s).authreqs)
    (hanswer : ∀ r, s.pendingRequests id = some r →
      r.challenged = true ∧ r.completionHandler = .answer) :
    Tidy (confauth w s id val) := by
  obtain ⟨hpurge, -⟩ := h.purgeauths
  unfold AuthLink.confauth
  dsimp only
  split
  · next hnone =>
    obtain ⟨a, ha, hid⟩ := List.mem_map.mp hopen
    exact absurd (beq_iff_eq.mpr hid) (List.find?_eq_none.mp hnone a ha)
  · have herase : openIds ((AuthLink.purgeauths s).authreqs.eraseP (·.id == id)) =
        (openIds (AuthLink.purgeauths s).authreqs).erase id := by
      rw [List.erase_eq_eraseP', openIds, openIds, List.eraseP_map]
      rfl
    refine hpurge.finish hopen ?_ ?_ ?_
    · rw [herase]
      exact List.erase_sublist
    · rw [herase]
      exact hpurge.open_nodup.not_mem_erase
    · split
      · exact .inr ⟨rfl, hanswer⟩
      · exact .inl rfl

/-- A line is taken. -/
theorem Tidy.take_line {line : Text} {lines : List Text} (h : Tidy s)
    (hlines : s.lines = line :: lines) : Tidy { s with lines := lines } := by
  have hsub : (askedIds lines).Sublist (askedIds s.lines) := by
    rw [hlines]
    exact (List.sublist_cons_self line lines).filterMap _
  have hmore {line' : Text} (hmem : line' ∈ lines) : line' ∈ s.lines := by
    rw [hlines]
    exact List.mem_cons_of_mem line hmem
  refine
    { h with
      served := ⟨h.served.reads, h.served.challenge, h.served.completion, h.served.success⟩
      gone := fun id hnone => ?_
      asked := fun id hmem => h.asked id (hsub.subset hmem)
      asked_nodup := hsub.nodup h.asked_nodup
      answered := fun line' hmem => h.answered line' (hmore hmem)
      plain := fun line' hmem => h.plain line' (hmore hmem) }
  obtain ⟨hnil, hasked, hopen⟩ := h.gone id hnone
  exact ⟨hnil, fun hmem => hasked (hsub.subset hmem), hopen⟩

/-- The auth server handles a line. -/
theorem Tidy.handleLine (h : Tidy s) (w : World) (hok : Answerable s .handleLine) :
    Tidy (handleLine w s) := by
  unfold AuthLink.handleLine
  split
  · exact h
  · next line lines hlines =>
    have htaken : Tidy { s with lines := lines } := h.take_line hlines
    have hfirst : line ∈ s.lines := hlines ▸ List.mem_cons_self
    dsimp only
    split
    · next id name domain hparse =>
      have hasked : askedIds s.lines = id :: askedIds lines := by
        have hid : askedId line = some id := by rw [askedId, hparse]
        rw [hlines, askedIds, List.filterMap_cons_some hid]
        rfl
      obtain ⟨hnil, hopen, hch⟩ := h.asked id (hasked ▸ List.mem_cons_self)
      have hnodup := h.asked_nodup
      rw [hasked] at hnodup
      refine htaken.reqauth w ⟨hnil, hopen, (List.nodup_cons.mp hnodup).1, ?_⟩ _ _
      cases hr : s.pendingRequests id with
      | none => exact absurd (hasked ▸ List.mem_cons_self) (h.gone id hr).2.1
      | some r => exact ⟨r, rfl, hch r hr⟩
    · next id val hparse =>
      obtain ⟨a, ha, hid⟩ := hok line lines id val hlines hparse
      refine htaken.confauth w id val (List.mem_map.mpr ⟨a, ha, hid⟩) ?_
      exact (h.answered line hfirst id val hparse).2
    · next id name domain hparse => exact absurd hparse (h.plain line hfirst id name domain)
    · exact htaken

/-! ## The game server -/

theorem challengeCount_append (calls : List Call) (c : Call) (id : Nat) :
    challengeCount (calls ++ [c]) id =
      challengeCount calls id + if (c.id == id && c.challenges) = true then 1 else 0 := by
  rw [challengeCount, List.countP_append, List.countP_singleton]
  rfl

theorem completionCount_append (calls : List Call) (c : Call) (id : Nat) :
    completionCount (calls ++ [c]) id =
      completionCount calls id + if (c.id == id && !c.challenges) = true then 1 else 0 := by
  rw [completionCount, List.countP_append, List.countP_singleton]
  rfl

/-- The calls for other ids are counted as before. -/
theorem count_append_other (calls : List Call) (c : Call) (hne : c.id ≠ id) :
    challengeCount (calls ++ [c]) id = challengeCount calls id ∧
      completionCount (calls ++ [c]) id = completionCount calls id := by
  have hid : (c.id == id) = false := beq_eq_false_iff_ne.mpr hne
  rw [challengeCount_append, completionCount_append, hid]
  exact ⟨rfl, rfl⟩

/-- A challenge completes nothing. -/
theorem completionCount_append_challenge (calls : List Call) {c : Call} (hc : c.challenges = true)
    (id : Nat) : completionCount (calls ++ [c]) id = completionCount calls id := by
  rw [completionCount_append, hc, Bool.not_true, Bool.and_false]
  rfl

/-- A completion challenges nobody. -/
theorem challengeCount_append_completion (calls : List Call) {c : Call}
    (hc : c.challenges = false) (id : Nat) :
    challengeCount (calls ++ [c]) id = challengeCount calls id := by
  rw [challengeCount_append, hc, Bool.and_false]
  rfl

/-- The first challenge for an id is the only one. -/
theorem challengeCount_append_le {calls : List Call} (h : ∀ id, challengeCount calls id ≤ 1)
    {c : Call} (hfirst : challengeCount calls c.id = 0) (id : Nat) :
    challengeCount (calls ++ [c]) id ≤ 1 := by
  by_cases hne : c.id = id
  · subst hne
    rw [challengeCount_append, hfirst]
    split <;> omega
  · rw [(count_append_other calls c hne).1]
    exact h id

/-- The first completion for an id is the only one. -/
theorem completionCount_append_le {calls : List Call} (h : ∀ id, completionCount calls id ≤ 1)
    {c : Call} (hfirst : completionCount calls c.id = 0) (id : Nat) :
    completionCount (calls ++ [c]) id ≤ 1 := by
  by_cases hne : c.id = id
  · subst hne
    rw [completionCount_append, hfirst]
    split <;> omega
  · rw [(count_append_other calls c hne).2]
    exact h id

/-- A challenge that is received. -/
theorem Tidy.challenge {replies : List Reply} (h : Tidy s)
    (hreplies : s.replies = .chalauth id :: replies) (hr : s.pendingRequests id = some r)
    (hch : r.challenged = false) (hrest : repliesOf replies id = [] ∨
      repliesOf replies id = [.failauth id]) :
    Tidy { s with
      replies := replies
      pendingRequests := Function.update s.pendingRequests id
        (some { r with challenged := true })
      calls := s.calls ++ [⟨id, r.completionHandler, true, .chalauth id⟩] } := by
  obtain ⟨hcompleted, hhandler, -⟩ := h.pending id r hr
  have hstart : r.completionHandler = .start := by
    cases hh : r.completionHandler with
    | start => rfl
    | answer => exact absurd (hch.symm.trans (hhandler hh)) Bool.false_ne_true
  have hother {id' : Nat} (hne : id' ≠ id) : repliesOf replies id' = repliesOf s.replies id' :=
    repliesOf_tail hreplies hne
  have hhead : repliesOf s.replies id = .chalauth id :: repliesOf replies id :=
    repliesOf_head hreplies
  have hsame (id' : Nat) :
      completionCount (s.calls ++ [⟨id, .start, true, .chalauth id⟩]) id' =
        completionCount s.calls id' := completionCount_append_challenge s.calls rfl id'
  rw [hstart]
  refine
    { served := ⟨h.served.reads, fun id' => ?_, fun id' => ?_, fun c hc => ?_⟩
      gone := fun id' hnone => ?_
      pending := fun id' r' hr' => ?_
      opened := fun id' hmem => ?_
      asked := fun id' hmem => ?_
      asked_nodup := h.asked_nodup
      open_nodup := h.open_nodup
      answered := fun line' hmem id' val hparse => ?_
      plain := h.plain
      requested := fun id' r' hr' => ?_
      calls := fun c hc => ?_
      unchallenged := fun id' r' hr' hch' => ?_
      uncompleted := fun id' r' hr' => ?_ }
  · exact challengeCount_append_le h.served.challenge (h.unchallenged id r hr hch) id'
  · change completionCount (s.calls ++ [_]) id' ≤ 1
    rw [hsame]
    exact h.served.completion id'
  · rcases List.mem_append.mp hc with hc | hc
    · exact h.served.success c hc
    · rw [List.mem_singleton.mp hc]
      exact nofun
  · obtain ⟨hne, hnone⟩ := of_update_some_none hnone
    obtain ⟨hnil, hasked, hopen⟩ := h.gone id' hnone
    exact ⟨(hother hne).trans hnil, hasked, hopen⟩
  · rcases of_update_some hr' with ⟨rfl, rfl⟩ | ⟨hne, hr'⟩
    · refine ⟨hcompleted, fun _ => rfl, ?_⟩
      rcases hrest with hnil | hfail
      · exact .inl hnil
      · exact .inr (.inr (.inl hfail))
    · change _ ∧ _ ∧ Awaits r' id' (repliesOf replies id')
      rw [hother hne]
      exact h.pending id' r' hr'
  · by_cases hne : id' = id
    · subst hne
      have hopened := h.opened id' hmem
      rw [hhead] at hopened
      rcases hopened with hnil | hone
      · exact absurd hnil (List.cons_ne_nil _ _)
      · exact .inl (List.cons.inj hone).2
    · change repliesOf replies id' = [] ∨ repliesOf replies id' = [.chalauth id']
      rw [hother hne]
      exact h.opened id' hmem
  · obtain ⟨hnil, hopen, hch'⟩ := h.asked id' hmem
    have hne : id' ≠ id := by
      rintro rfl
      exact absurd (hhead.symm.trans hnil) (List.cons_ne_nil _ _)
    refine ⟨(hother hne).trans hnil, hopen, fun r' hr' => ?_⟩
    rcases of_update_some hr' with ⟨heq, -⟩ | ⟨-, hr'⟩
    · exact absurd heq hne
    · exact hch' r' hr'
  · obtain ⟨hreq, hpending⟩ := h.answered line' hmem id' val hparse
    refine ⟨hreq, fun r' hr' => ?_⟩
    rcases of_update_some hr' with ⟨rfl, rfl⟩ | ⟨-, hr'⟩
    · exact ⟨rfl, hstart ▸ (hpending r hr).2⟩
    · exact hpending r' hr'
  · rcases of_update_some hr' with ⟨rfl, -⟩ | ⟨-, hr'⟩
    · exact h.requested id' r hr
    · exact h.requested id' r' hr'
  · rcases List.mem_append.mp hc with hc | hc
    · exact h.calls c hc
    · rw [List.mem_singleton.mp hc]
      exact h.requested id r hr
  · rcases of_update_some hr' with ⟨-, rfl⟩ | ⟨hne, hr'⟩
    · exact absurd hch' nofun
    · change challengeCount (s.calls ++ [_]) id' = 0
      rw [(count_append_other _ _ (Ne.symm hne)).1]
      exact h.unchallenged id' r' hr' hch'
  · change completionCount (s.calls ++ [_]) id' = 0
    rw [hsame]
    rcases of_update_some hr' with ⟨rfl, -⟩ | ⟨-, hr'⟩
    · exact h.uncompleted id' r hr
    · exact h.uncompleted id' r' hr'

/-- A reply that completes its request. -/
theorem Tidy.complete {replies : List Reply} {c : Call} (h : Tidy s)
    (hreplies : s.replies = reply :: replies) (hid : reply.id = id)
    (hr : s.pendingRequests id = some r) (hnot : reply ≠ .chalauth id)
    (hrest : repliesOf replies id = []) (hc : c.id = id) (hfinal : c.challenges = false)
    (hsucc : c.success = true → c.reply = .succauth c.id) :
    Tidy { s with
      replies := replies
      pendingRequests := Function.update s.pendingRequests id none
      calls := s.calls ++ [c] } := by
  have hother {id' : Nat} (hne : id' ≠ id) : repliesOf replies id' = repliesOf s.replies id' :=
    repliesOf_tail hreplies (hid ▸ hne)
  have hhead : repliesOf s.replies id = reply :: repliesOf replies id :=
    hid ▸ repliesOf_head hreplies
  have hasked : id ∉ askedIds s.lines := fun hmem =>
    absurd (hhead.symm.trans (h.asked id hmem).1) (List.cons_ne_nil _ _)
  have hopen : id ∉ openIds s.authreqs := by
    intro hmem
    rcases h.opened id hmem with hnil | hone
    · exact absurd (hhead.symm.trans hnil) (List.cons_ne_nil _ _)
    · exact hnot (List.cons.inj (hhead.symm.trans hone)).1
  have hsame (id' : Nat) : challengeCount (s.calls ++ [c]) id' = challengeCount s.calls id' :=
    challengeCount_append_completion s.calls hfinal id'
  refine
    { served := ⟨h.served.reads, fun id' => ?_, fun id' => ?_, fun c' hc' => ?_⟩
      gone := fun id' hnone => ?_
      pending := fun id' r' hr' => ?_
      opened := fun id' hmem => ?_
      asked := fun id' hmem => ?_
      asked_nodup := h.asked_nodup
      open_nodup := h.open_nodup
      answered := fun line' hmem id' val hparse => ?_
      plain := h.plain
      requested := fun id' r' hr' => h.requested id' r' (of_update_none hr').2
      calls := fun c' hc' => ?_
      unchallenged := fun id' r' hr' hch' => ?_
      uncompleted := fun id' r' hr' => ?_ }
  · change challengeCount (s.calls ++ [c]) id' ≤ 1
    rw [hsame]
    exact h.served.challenge id'
  · exact completionCount_append_le h.served.completion (hc ▸ h.uncompleted id r hr) id'
  · rcases List.mem_append.mp hc' with hc' | hc'
    · exact h.served.success c' hc'
    · rw [List.mem_singleton.mp hc']
      exact fun _ => hsucc
  · by_cases hne : id' = id
    · rw [hne]
      exact ⟨hrest, hasked, hopen⟩
    · change Function.update s.pendingRequests id none id' = none at hnone
      rw [Function.update_of_ne hne] at hnone
      obtain ⟨hnil, hrest'⟩ := h.gone id' hnone
      exact ⟨(hother hne).trans hnil, hrest'⟩
  · obtain ⟨hne, hr'⟩ := of_update_none hr'
    change _ ∧ _ ∧ Awaits r' id' (repliesOf replies id')
    rw [hother hne]
    exact h.pending id' r' hr'
  · have hne : id' ≠ id := fun heq => hopen (heq ▸ hmem)
    change repliesOf replies id' = [] ∨ repliesOf replies id' = [.chalauth id']
    rw [hother hne]
    exact h.opened id' hmem
  · have hne : id' ≠ id := fun heq => hasked (heq ▸ hmem)
    obtain ⟨hnil, hop, hch⟩ := h.asked id' hmem
    exact ⟨(hother hne).trans hnil, hop, fun r' hr' => hch r' (of_update_none hr').2⟩
  · obtain ⟨hreq, hpending⟩ := h.answered line' hmem id' val hparse
    exact ⟨hreq, fun r' hr' => hpending r' (of_update_none hr').2⟩
  · rcases List.mem_append.mp hc' with hc' | hc'
    · exact h.calls c' hc'
    · rw [List.mem_singleton.mp hc', hc]
      exact h.requested id r hr
  · change challengeCount (s.calls ++ [c]) id' = 0
    rw [hsame]
    exact h.unchallenged id' r' (of_update_none hr').2 hch'
  · obtain ⟨hne, hr'⟩ := of_update_none hr'
    change completionCount (s.calls ++ [c]) id' = 0
    rw [(count_append_other _ _ (hc ▸ Ne.symm hne)).2]
    exact h.uncompleted id' r' hr'

/-- The game server reads a reply. -/
theorem Tidy.readReply (h : Tidy s) : Tidy (readReply s) := by
  unfold AuthLink.readReply
  split
  · next reply replies _ hreplies =>
    have hhead := repliesOf_head hreplies
    cases hr : s.pendingRequests reply.id with
    | none => exact absurd (hhead.symm.trans (h.gone _ hr).1) (List.cons_ne_nil _ _)
    | some r =>
      obtain ⟨hcompleted, -, hawaits⟩ := h.pending _ r hr
      obtain ⟨challenged, completed, completionHandler⟩ := r
      cases hcompleted
      rw [hhead] at hawaits
      cases reply with
      | chalauth id =>
        rcases hawaits with hnil | ⟨hone, hch⟩ | hfail | ⟨htwo, hch⟩ | ⟨hsucc, -⟩
        · exact absurd hnil (List.cons_ne_nil _ _)
        · cases hch
          exact h.challenge hreplies hr rfl (.inl (List.cons.inj hone).2)
        · exact absurd (List.cons.inj hfail).1 nofun
        · cases hch
          exact h.challenge hreplies hr rfl (.inr (List.cons.inj htwo).2)
        · exact absurd (List.cons.inj hsucc).1 nofun
      | failauth id =>
        have hrest : repliesOf replies id = [] := by
          rcases hawaits with hnil | ⟨hone, -⟩ | hfail | ⟨htwo, -⟩ | ⟨hsucc, -⟩
          · exact absurd hnil (List.cons_ne_nil _ _)
          · exact absurd (List.cons.inj hone).1 nofun
          · exact (List.cons.inj hfail).2
          · exact absurd (List.cons.inj htwo).1 nofun
          · exact absurd (List.cons.inj hsucc).1 nofun
        exact h.complete (c := ⟨id, completionHandler, false, .failauth id⟩) hreplies rfl hr
          nofun hrest rfl (Bool.and_false _) nofun
      | succauth id =>
        rcases hawaits with hnil | ⟨hone, -⟩ | hfail | ⟨htwo, -⟩ | ⟨hsucc, hch, hanswer⟩
        · exact absurd hnil (List.cons_ne_nil _ _)
        · exact absurd (List.cons.inj hone).1 nofun
        · exact absurd (List.cons.inj hfail).1 nofun
        · exact absurd (List.cons.inj htwo).1 nofun
        · cases hch
          cases hanswer
          exact h.complete (c := ⟨id, .answer, true, .succauth id⟩) hreplies rfl hr
            nofun (List.cons.inj hsucc).2 rfl rfl fun _ => rfl
      | notFound id =>
        rcases hawaits with hnil | ⟨hone, -⟩ | hfail | ⟨htwo, -⟩ | ⟨hsucc, -⟩
        · exact absurd hnil (List.cons_ne_nil _ _)
        · exact absurd (List.cons.inj hone).1 nofun
        · exact absurd (List.cons.inj hfail).1 nofun
        · exact absurd (List.cons.inj htwo).1 nofun
        · exact absurd (List.cons.inj hsucc).1 nofun
      | foundId id =>
        rcases hawaits with hnil | ⟨hone, -⟩ | hfail | ⟨htwo, -⟩ | ⟨hsucc, -⟩
        · exact absurd hnil (List.cons_ne_nil _ _)
        · exact absurd (List.cons.inj hone).1 nofun
        · exact absurd (List.cons.inj hfail).1 nofun
        · exact absurd (List.cons.inj htwo).1 nofun
        · exact absurd (List.cons.inj hsucc).1 nofun
  · exact h

/-- A request that is new. -/
theorem Tidy.newRequest (h : Tidy s) (id : Nat) (name : Text) (domain : Option Text)
    (hok : Answerable s (.newRequest id name domain)) : Tidy (newRequest s id name domain) := by
  obtain ⟨hnew, hlt, hname, hdomain⟩ := hok
  obtain ⟨line, hline, hparse⟩ := parse_reqauthText hlt hname hdomain
  have hnone : s.pendingRequests id = none := by
    cases hr : s.pendingRequests id with
    | none => rfl
    | some r => exact absurd (h.requested id r hr) hnew
  have hcall {c : Call} (hc : c ∈ s.calls) : (c.id == id) = false :=
    beq_eq_false_iff_ne.mpr fun heq => hnew (heq ▸ h.calls c hc)
  obtain ⟨hnil, hasked, hopen⟩ := h.gone id hnone
  -- The line asks for the id, or for nothing.
  have hids : askedIds (s.lines ++ [line]) = askedIds s.lines ∨
      askedIds (s.lines ++ [line]) = askedIds s.lines ++ [id] := by
    rw [askedIds_append]
    rcases hparse with hparse | ⟨user, domain', hparse⟩
    · exact .inl (by rw [askedId, hparse]; exact List.append_nil _)
    · exact .inr (by rw [askedId, hparse]; rfl)
  have hmore {id' : Nat} (hmem : id' ∈ askedIds (s.lines ++ [line])) :
      id' ∈ askedIds s.lines ∨ id' = id := by
    rcases hids with hids | hids
    · exact .inl (hids ▸ hmem)
    · rw [hids] at hmem
      exact (List.mem_append.mp hmem).imp_right List.mem_singleton.mp
  unfold AuthLink.newRequest
  rw [hnone]
  dsimp only
  rw [hline]
  refine
    { served := ⟨h.served.reads, h.served.challenge, h.served.completion, h.served.success⟩
      gone := fun id' hnone' => ?_
      pending := fun id' r hr => ?_
      opened := h.opened
      asked := fun id' hmem => ?_
      asked_nodup := ?_
      open_nodup := h.open_nodup
      answered := fun line' hmem id' val hparse' => ?_
      plain := fun line' hmem id' name' domain' hparse' => ?_
      requested := fun id' r hr => ?_
      calls := fun c hc => List.mem_append_left _ (h.calls c hc)
      unchallenged := fun id' r hr hch => ?_
      uncompleted := fun id' r hr => ?_ }
  · obtain ⟨hne, hnone'⟩ := of_update_some_none hnone'
    obtain ⟨hnil', hasked', hopen'⟩ := h.gone id' hnone'
    exact ⟨hnil', fun hmem => (hmore hmem).elim hasked' hne, hopen'⟩
  · rcases of_update_some hr with ⟨rfl, rfl⟩ | ⟨-, hr⟩
    · exact ⟨rfl, nofun, .inl hnil⟩
    · exact h.pending id' r hr
  · rcases hmore hmem with hmem | rfl
    · obtain ⟨hnil', hopen', hch⟩ := h.asked id' hmem
      refine ⟨hnil', hopen', fun r hr => ?_⟩
      rcases of_update_some hr with ⟨-, rfl⟩ | ⟨-, hr⟩
      · rfl
      · exact hch r hr
    · refine ⟨hnil, hopen, fun r hr => ?_⟩
      rcases of_update_some hr with ⟨-, rfl⟩ | ⟨hne, -⟩
      · rfl
      · exact absurd rfl hne
  · rcases hids with hids | hids
    · rw [hids]
      exact h.asked_nodup
    · rw [hids]
      refine List.nodup_append.mpr ⟨h.asked_nodup, List.nodup_singleton id, ?_⟩
      intro a ha b hb heq
      exact hasked (List.mem_singleton.mp hb ▸ heq ▸ ha)
  · rcases List.mem_append.mp hmem with hmem | hlast
    · obtain ⟨hreq, hpending⟩ := h.answered line' hmem id' val hparse'
      refine ⟨List.mem_append_left _ hreq, fun r hr => ?_⟩
      rcases of_update_some hr with ⟨rfl, -⟩ | ⟨-, hr⟩
      · exact absurd hreq hnew
      · exact hpending r hr
    · rw [List.mem_singleton.mp hlast] at hparse'
      rcases hparse with hparse | ⟨user, domain', hparse⟩
      · exact absurd (hparse.symm.trans hparse') nofun
      · exact absurd (hparse.symm.trans hparse') nofun
  · rcases List.mem_append.mp hmem with hmem | hlast
    · exact h.plain line' hmem id' name' domain' hparse'
    · rw [List.mem_singleton.mp hlast] at hparse'
      rcases hparse with hparse | ⟨user, domain', hparse⟩
      · exact absurd (hparse.symm.trans hparse') nofun
      · exact absurd (hparse.symm.trans hparse') nofun
  · rcases of_update_some hr with ⟨rfl, -⟩ | ⟨-, hr⟩
    · exact List.mem_append_right _ List.mem_cons_self
    · exact List.mem_append_left _ (h.requested id' r hr)
  · rcases of_update_some hr with ⟨rfl, -⟩ | ⟨-, hr⟩
    · refine List.countP_eq_zero.mpr fun c hc => ?_
      rw [hcall hc]
      exact Bool.false_ne_true
    · exact h.unchallenged id' r hr hch
  · rcases of_update_some hr with ⟨rfl, -⟩ | ⟨-, hr⟩
    · refine List.countP_eq_zero.mpr fun c hc => ?_
      rw [hcall hc]
      exact Bool.false_ne_true
    · exact h.uncompleted id' r hr

/-- An answer to a challenge. -/
theorem Tidy.sendAnswer (h : Tidy s) (id : Nat) (answer : Text)
    (hok : Answerable s (.sendAnswer id answer)) : Tidy (sendAnswer s id answer) := by
  obtain ⟨hlt, hanswer, hok⟩ := hok
  obtain ⟨line, hline, hparse⟩ := parse_confauthText hlt hanswer
  unfold AuthLink.sendAnswer
  split
  · next hreq =>
    have hids : askedIds (s.lines ++ [line]) = askedIds s.lines := by
      rw [askedIds_append]
      rcases hparse with hparse | ⟨val, hparse⟩
      · rw [askedId, hparse]
        exact List.append_nil _
      · rw [askedId, hparse]
        exact List.append_nil _
    have hpend {id' : Nat} {q : Pending}
        (hq : Function.update s.pendingRequests id ((s.pendingRequests id).map fun r =>
          { r with completionHandler := .answer }) id' = some q) :
        ∃ r, s.pendingRequests id' = some r ∧ q.challenged = r.challenged ∧
          q.completed = r.completed ∧ (q.completionHandler = r.completionHandler ∨
            (q.completionHandler = .answer ∧ q.challenged = true)) ∧
          (id' = id → q.completionHandler = .answer) := by
      by_cases hne : id' = id
      · rw [hne, Function.update_self] at hq
        obtain ⟨r, hr, rfl⟩ := Option.map_eq_some_iff.mp hq
        exact ⟨r, hne ▸ hr, rfl, rfl, .inr ⟨rfl, hok r hr⟩, fun _ => rfl⟩
      · rw [Function.update_of_ne hne] at hq
        exact ⟨q, hq, rfl, rfl, .inl rfl, fun heq => absurd heq hne⟩
    rw [hline]
    refine
      { h with
        served := ⟨h.served.reads, h.served.challenge, h.served.completion, h.served.success⟩
        gone := fun id' hnone => ?_
        pending := fun id' r hr => ?_
        asked := fun id' hmem => ?_
        asked_nodup := ?_
        answered := fun line' hmem id' val hparse' => ?_
        plain := fun line' hmem id' name' domain' hparse' => ?_
        requested := fun id' r hr => ?_
        unchallenged := fun id' r hr hch => ?_
        uncompleted := fun id' r hr => ?_ }
    · change Function.update s.pendingRequests id _ id' = none at hnone
      have hnone' : s.pendingRequests id' = none := by
        by_cases hne : id' = id
        · rw [hne, Function.update_self] at hnone
          exact hne ▸ Option.map_eq_none_iff.mp hnone
        · rw [Function.update_of_ne hne] at hnone
          exact hnone
      obtain ⟨hnil, hasked, hopen⟩ := h.gone id' hnone'
      exact ⟨hnil, fun hmem => hasked (hids ▸ hmem), hopen⟩
    · obtain ⟨r', hr', hch, hcompleted, hhandler, -⟩ := hpend hr
      obtain ⟨hcompleted', hhandler', hawaits⟩ := h.pending id' r' hr'
      refine ⟨hcompleted.trans hcompleted', fun hanswer => ?_, ?_⟩
      · rcases hhandler with hsame | ⟨-, hch'⟩
        · exact hch.trans (hhandler' (hsame ▸ hanswer))
        · exact hch'
      · rcases hawaits with hnil | ⟨hone, hc⟩ | hfail | ⟨htwo, hc⟩ | ⟨hsucc, hc, hanswer⟩
        · exact .inl hnil
        · exact .inr (.inl ⟨hone, hch.trans hc⟩)
        · exact .inr (.inr (.inl hfail))
        · exact .inr (.inr (.inr (.inl ⟨htwo, hch.trans hc⟩)))
        · refine .inr (.inr (.inr (.inr ⟨hsucc, hch.trans hc, ?_⟩)))
          exact hhandler.elim (fun hsame => hsame.trans hanswer) And.left
    · change id' ∈ askedIds (s.lines ++ [line]) at hmem
      rw [hids] at hmem
      obtain ⟨hnil, hopen, hch⟩ := h.asked id' hmem
      refine ⟨hnil, hopen, fun r hr => ?_⟩
      obtain ⟨r', hr', hch', -⟩ := hpend hr
      exact hch'.trans (hch r' hr')
    · change (askedIds (s.lines ++ [line])).Nodup
      rw [hids]
      exact h.asked_nodup
    · rcases List.mem_append.mp hmem with hmem | hlast
      · obtain ⟨hreq', hpending⟩ := h.answered line' hmem id' val hparse'
        refine ⟨hreq', fun r hr => ?_⟩
        obtain ⟨r', hr', hch, -, hhandler, -⟩ := hpend hr
        obtain ⟨hch', hanswer⟩ := hpending r' hr'
        exact ⟨hch.trans hch', hhandler.elim (fun hsame => hsame.trans hanswer) And.left⟩
      · rw [List.mem_singleton.mp hlast] at hparse'
        rcases hparse with hparse | ⟨val', hparse⟩
        · exact absurd (hparse.symm.trans hparse') nofun
        · cases hparse.symm.trans hparse'
          refine ⟨hreq, fun r hr => ?_⟩
          obtain ⟨r', hr', hch, -, -, hanswer⟩ := hpend hr
          exact ⟨hch.trans (hok r' hr'), hanswer rfl⟩
    · rcases List.mem_append.mp hmem with hmem | hlast
      · exact h.plain line' hmem id' name' domain' hparse'
      · rw [List.mem_singleton.mp hlast] at hparse'
        rcases hparse with hparse | ⟨val', hparse⟩
        · exact absurd (hparse.symm.trans hparse') nofun
        · exact absurd (hparse.symm.trans hparse') nofun
    · obtain ⟨r', hr', -⟩ := hpend hr
      exact h.requested id' r' hr'
    · obtain ⟨r', hr', hch', -⟩ := hpend hr
      exact h.unchallenged id' r' hr' (hch'.symm.trans hch)
    · obtain ⟨r', hr', -⟩ := hpend hr
      exact h.uncompleted id' r' hr'
  · exact h

/-! ## Runs -/

theorem Tidy.init (servtime : Nat) : Tidy (Link.init servtime) where
  served := ⟨rfl, fun _ => Nat.zero_le 1, fun _ => Nat.zero_le 1, fun _ hc => absurd hc nofun⟩
  gone _ _ := ⟨rfl, List.not_mem_nil, List.not_mem_nil⟩
  pending _ _ hr := absurd hr nofun
  opened _ hmem := absurd hmem List.not_mem_nil
  asked _ hmem := absurd hmem List.not_mem_nil
  asked_nodup := List.nodup_nil
  open_nodup := List.nodup_nil
  answered _ hmem := absurd hmem List.not_mem_nil
  plain _ hmem := absurd hmem List.not_mem_nil
  requested _ _ hr := absurd hr nofun
  calls _ hc := absurd hc List.not_mem_nil
  unchallenged _ _ hr := absurd hr nofun
  uncompleted _ _ hr := absurd hr nofun

/-- What one step keeps. -/
theorem Tidy.step (w : World) (s : Link) (a : Action) (hok : Answerable s a) (h : Tidy s) :
    Tidy (step w s a) := by
  cases a with
  | newRequest id name domain => exact h.newRequest id name domain hok
  | sendAnswer id answer => exact h.sendAnswer id answer hok
  | handleLine => exact h.handleLine w hok
  | readReply => exact h.readReply
  | elapse millis => exact h.frame s.lastauth (s.servtime + millis)

/-- In a run in which ids are not used again and fit into 32 bits, there is no newline in what the
clients have sent, answers are sent after the challenge, and the request of each answer that comes
to the auth server is still there, the loop reads every reply, each request gets one challenge and
is completed once at most, and what succeeds does so by its own `succauth`. -/
theorem served_run (w : World) (servtime : Nat) (as : List Action)
    (h : Along Answerable (step w) (Link.init servtime) as) (bs cs : List Action)
    (has : as = bs ++ cs) : Served (Machine.run (step w) (Link.init servtime) bs) := by
  rw [has] at h
  exact ((along_append.mp h).1.inv (Tidy.step w) (Tidy.init servtime)).served

/-- A world in which every user has the key `k`, and every answer is right. -/
def World.open : World := ⟨fun _ _ => some "k", fun _ _ => "c", fun _ _ => true⟩

/-- A request that is answered within the time. -/
def answeredInTime : List Action :=
  [.newRequest 1 ['n'] (some ['d']), .handleLine, .readReply, .sendAnswer 1 ['f'], .handleLine,
    .readReply]

theorem served_run_in_time :
    Served (Machine.run (step World.open) (Link.init 2000) answeredInTime) := by
  refine served_run World.open 2000 answeredInTime ?_ answeredInTime [] rfl
  refine ⟨⟨List.not_mem_nil, by decide, by decide, ?_⟩, ?_, trivial, ⟨by decide, by decide, ?_⟩,
    ?_, trivial, trivial⟩
  · rintro text htext
    cases htext
    decide
  · rintro line lines id val hlines hparse
    cases hlines
    have hline : parseLine "reqauth 1 n d".toList = some (.reqauth 1 ['n'] ['d']) := by decide
    exact absurd (hline.symm.trans hparse) nofun
  · rintro r hr
    cases hr
    rfl
  · rintro line lines id val hlines hparse
    cases hlines
    have hid : id = 1 := by
      have hline : parseLine "confauth 1 f".toList = some (.confauth 1 ['f']) := by decide
      cases hline.symm.trans hparse
      rfl
    exact ⟨⟨1, 2000, "c"⟩, List.mem_cons_self, hid.symm⟩

/-- The same, but the answer comes too late. -/
def answeredLate : List Action :=
  [.newRequest 1 ['n'] (some ['d']), .handleLine, .readReply, .sendAnswer 1 ['f'], .elapse 30000,
    .handleLine, .readReply, .readReply]

/-- The answer of a request that has expired gets a second reply, and the loop stops. -/
theorem late_answer_stops :
    ¬ ∀ (w : World) (servtime : Nat) (as : List Action),
      Along (fun s a => ∀ id name domain, a = .newRequest id name domain → id ∉ s.requested)
        (step w) (Link.init servtime) as →
      Served (Machine.run (step w) (Link.init servtime) as) := by
  intro h
  have hserved := h World.open 2000 answeredLate
    ⟨fun id _ _ _ => List.not_mem_nil, nofun, nofun, nofun, nofun, nofun, nofun, nofun, trivial⟩
  exact absurd hserved.reads (by decide)

/-- A newline in the name of a client makes a second line, with an id that nobody waits for. -/
example : (Machine.run (step World.open) (Link.init 2000)
    [.newRequest 1 " \nreqauth 999 b".toList none, .handleLine, .handleLine, .readReply]).stopped =
      true := by decide

end AuthLink

end Zuckerserv
