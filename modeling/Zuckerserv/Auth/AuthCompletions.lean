import Zuckerserv.Auth.AuthSessions

/-!
# How often a request is completed

A request is in two tables, and its timer, its auth server and its client may all complete it. The
loop that cancels the requests of a client that leaves stops at the first id that the client does
not have.

* `Proper`, `Cancelled` — every request is completed once at most, and cancelled when its client
  leaves.
* `Orderly` — the ids of a client that leaves have no gap, and no reply comes for a request that is
  completed.
* `completed_once` — then it is so, in any run.
-/

namespace Zuckerserv

namespace AuthCore

open Machine Table

/-! ## The properties -/

/-- The statuses that the listeners of a request have been notified of. -/
def statuses (log : List Entry) (id : Nat) : List Status :=
  log.filterMap fun e =>
    match e with
    | .completed id' status => if id' = id then some status else none
    | _ => none

/-- Every request has been completed once at most, and no completion has indexed the state of a
client that is gone. -/
structure Proper (s : Auth) : Prop where
  once : ∀ id, (statuses s.log id).length ≤ 1
  not_faulted : s.faulted = false

/-- The requests of a client are cancelled when it leaves. -/
def Cancelled (s : Auth) (cn : Nat) : Prop :=
  ∀ id request, s.requests id = some request → request.kind ≠ .neither → request.cn = cn →
    Entry.completed id .CANCELLED ∈ (leave s cn).log ∧ (leave s cn).requests id = none

/-- If the client has not joined the game, it has no other request. -/
def Alone (s : Auth) (id : Nat) (request : Request) : Prop :=
  ∀ p c, s.peers request.cn = some p → p.joined = false → s.clients request.cn = some c →
    ∀ id', id' ≠ id → c.requests id' = none

/-- The request is there, and can be completed with a failure. -/
def Pending (s : Auth) (id : Nat) (r : Remote) : Prop :=
  s.requests id = some r.request ∧ Alone s id r.request

/-- The reply completes the request object, if the request to the auth server is not completed. -/
def Completes (r : Remote) : Reply → Prop
  | .chalauth => r.challenged = true ∨ r.completionHandler = .answer
  | .failauth => True
  | .succauth _ => r.challenged = false ∨ r.completionHandler = .answer

/-- The ids of the requests of a client that leaves are `1`, `2` and so on; if it has not joined the
game, it has none. A reply or a failure that completes a request finds it there, and a request
that is deferred finds its client. -/
def Orderly (s : Auth) : Action → Prop
  | .leave cn => ∀ p c, s.peers cn = some p → s.clients cn = some c →
    if p.joined then ∀ i j, 1 ≤ j → j ≤ i → (c.requests i).isSome → (c.requests j).isSome
    else ∀ i, c.requests i = none
  | .connected k false => ∀ d, s.deferred[k]? = some d →
    (s.peers d.cn).isSome ∨ s.clients d.cn = none
  | .authChallengeResponse _ id false => ∀ request, s.requests id = some request →
    request.kind = .localRequest → Alone s id request
  | .timer id => ∀ request, s.requests id = some request → Alone s id request
  | .reply id reply => ∀ r, s.remotes id = some r → r.completed = false →
    Completes r reply → Pending s id r
  | .sendFailed id => ∀ r, s.remotes id = some r → r.completed = false → Pending s id r
  | .readFailed id => ∀ r, s.remotes id = some r → Pending s id r
  | _ => True

/-! ## What is kept -/

/-- What holds in a run that is orderly. -/
structure Sound (s : Auth) : Prop where
  proper : Proper s
  pending : ∀ id request, s.requests id = some request → request.kind ≠ .neither →
    ∃ c, s.clients request.cn = some c ∧ c.requests id = some request ∧
      (s.peers request.cn).isSome
  listed : ∀ cn c id request, s.clients cn = some c → c.requests id = some request →
    s.requests id = some request ∧ request.cn = cn ∧ request.kind ≠ .neither
  bounds : ∀ id request, s.requests id = some request → request.kind ≠ .neither →
    1 ≤ id ∧ id < s.nextRequestId
  unfinished : ∀ id request, s.requests id = some request → request.kind = .neither →
    id = s.nextRequestId
  positive : 1 ≤ s.nextRequestId
  silent : ∀ id, s.nextRequestId ≤ id ∨
    (∃ request, s.requests id = some request ∧ request.kind ≠ .neither) → statuses s.log id = []
  timers : ∀ id, s.timers id = true → id < s.nextRequestId
  remotes : ∀ id r, s.remotes id = some r → r.request.kind = .remoteRequest

variable {s s' : Auth} {cn id conn : Nat} {request : Request} {r : Remote} {status : Status}
  {c : Client} {p : Peer} {userId domain : String}

theorem statuses_append (log es : List Entry) (id : Nat) :
    statuses (log ++ es) id = statuses log id ++ statuses es id := List.filterMap_append ..

/-- What a completion does to a request that is there. -/
structure Taken (s s' : Auth) (id : Nat) (request : Request) (status : Status) (c : Client) :
    Prop where
  requests : s'.requests = Function.update s.requests id none
  clients : ∃ authed, s'.clients = Function.update s.clients request.cn
    (some ⟨authed, Function.update c.requests id none⟩)
  peers : ∀ cn, cn ≠ request.cn → s'.peers cn = s.peers cn
  peer : (s'.peers request.cn).isSome ∨
    (status ≠ .SUCCESS ∧ ∃ p, s.peers request.cn = some p ∧ p.joined = false)
  joined : ∀ p, s.peers request.cn = some p → p.joined = true → s'.peers request.cn = some p
  log : s'.log = s.log ++ [.completed id status]
  faulted : s'.faulted = s.faulted
  next : s'.nextRequestId = s.nextRequestId
  timers : s'.timers = s.timers
  remotes : s'.remotes = s.remotes

theorem taken_settle (hc : s.clients request.cn = some c) (hp : s.peers request.cn = some p) :
    Taken s (settle s id request status) id request status c := by
  have hclients : (joinOrReject s request.cn p status).clients = s.clients := by
    unfold joinOrReject
    split
    · rfl
    · split <;> rfl
  rw [settle, hp]
  dsimp only
  rw [finish, hclients, hc]
  unfold joinOrReject
  by_cases hjoined : p.joined = true
  · rw [if_pos hjoined]
    exact
      { requests := rfl
        clients := ⟨_, rfl⟩
        peers := fun _ _ => rfl
        peer := .inl (Option.isSome_iff_exists.mpr ⟨p, hp⟩)
        joined := fun _ h _ => h
        log := rfl
        faulted := rfl
        next := rfl
        timers := rfl
        remotes := rfl }
  · rw [if_neg hjoined]
    by_cases hstatus : status = .SUCCESS
    · rw [if_pos hstatus]
      exact
        { requests := rfl
          clients := ⟨_, rfl⟩
          peers := fun cn hcn => Function.update_of_ne hcn ..
          peer := .inl (Option.isSome_iff_exists.mpr ⟨_, Function.update_self ..⟩)
          joined := fun p' hp' h => by
            cases Option.some.inj (hp.symm.trans hp')
            exact absurd h hjoined
          log := rfl
          faulted := rfl
          next := rfl
          timers := rfl
          remotes := rfl }
    · rw [if_neg hstatus]
      exact
        { requests := rfl
          clients := ⟨_, rfl⟩
          peers := fun cn hcn => Function.update_of_ne hcn ..
          peer := .inr ⟨hstatus, p, hp, Bool.eq_false_iff.mpr hjoined⟩
          joined := fun p' hp' h => by
            cases Option.some.inj (hp.symm.trans hp')
            exact absurd h hjoined
          log := rfl
          faulted := rfl
          next := rfl
          timers := rfl
          remotes := rfl }

/-- A request that is there is taken out. -/
theorem taken_completeRequest (hc : s.clients request.cn = some c)
    (hp : s.peers request.cn = some p) :
    Taken s (completeRequest s id request status) id request status c := by
  rw [completeRequest]
  by_cases hstatus : status = .SUCCESS
  · rw [if_pos hstatus, hc]
    have hclients : (authenticate s request c).clients request.cn =
        some ⟨Function.update c.authed request.domain (some request.userId), c.requests⟩ :=
      Function.update_self ..
    have htaken : Taken (authenticate s request c) (settle (authenticate s request c) id request
        status) id request status _ := taken_settle hclients hp
    obtain ⟨authed, hauthed⟩ := htaken.clients
    exact
      { htaken with
        clients := ⟨authed, hauthed.trans (Function.update_idem ..)⟩ }
  · rw [if_neg hstatus]
    exact taken_settle hc hp

/-- The completion is on record, and no other. -/
theorem Taken.statuses_eq (ht : Taken s s' id request status c) (id' : Nat) :
    statuses s'.log id' = statuses s.log id' ++ if id = id' then [status] else [] := by
  rw [ht.log, statuses_append]
  by_cases hid : id = id'
  · rw [if_pos hid]
    simp [statuses, hid]
  · rw [if_neg hid]
    simp [statuses, hid]

/-- The other requests are still those of a client that is there. -/
theorem Taken.pending (ht : Taken s s' id request status c) (h : Sound s)
    (hc : s.clients request.cn = some c) (halone : status ≠ .SUCCESS → Alone s id request)
    {id' : Nat} {request' : Request} (hne : id' ≠ id) (hold : s.requests id' = some request')
    (hkind : request'.kind ≠ .neither) :
    ∃ c', s'.clients request'.cn = some c' ∧ c'.requests id' = some request' ∧
      (s'.peers request'.cn).isSome := by
  obtain ⟨authed, hclients⟩ := ht.clients
  obtain ⟨c', hc', hmem, hpeer⟩ := h.pending id' request' hold hkind
  by_cases hcn : request'.cn = request.cn
  · rw [hcn] at hc' hpeer
    cases Option.some.inj (hc.symm.trans hc')
    refine ⟨⟨authed, Function.update c.requests id none⟩, ?_, ?_, ?_⟩
    · rw [hclients, hcn, Function.update_self]
    · exact (Function.update_of_ne hne ..).trans hmem
    · rw [hcn]
      rcases ht.peer with hthere | ⟨hstatus, p, hp, hjoined⟩
      · exact hthere
      · -- A client that is turned away has no other request.
        rw [halone hstatus p c hp hjoined hc id' hne] at hmem
        cases hmem
  · refine ⟨c', ?_, hmem, ?_⟩
    · rw [hclients, Function.update_of_ne hcn]
      exact hc'
    · rw [ht.peers _ hcn]
      exact hpeer

/-- What the clients list is still in the table of the requests. -/
theorem Taken.listed (ht : Taken s s' id request status c) (h : Sound s)
    (hr : s.requests id = some request) (hc : s.clients request.cn = some c)
    {cn' id' : Nat} {c' : Client} {request' : Request} (hc' : s'.clients cn' = some c')
    (hmem : c'.requests id' = some request') :
    s'.requests id' = some request' ∧ request'.cn = cn' ∧ request'.kind ≠ .neither := by
  obtain ⟨authed, hclients⟩ := ht.clients
  rw [hclients] at hc'
  rw [ht.requests]
  rcases of_update_some hc' with ⟨rfl, rfl⟩ | ⟨hcn, hc'⟩
  · obtain ⟨hne, hold⟩ := of_update_none hmem
    rw [Function.update_of_ne hne]
    exact h.listed _ c id' request' hc hold
  · obtain ⟨hold, hcn', hkind⟩ := h.listed cn' c' id' request' hc' hmem
    have hne : id' ≠ id := by
      rintro rfl
      cases Option.some.inj (hr.symm.trans hold)
      exact hcn hcn'.symm
    rw [Function.update_of_ne hne]
    exact ⟨hold, hcn', hkind⟩

theorem Sound.taken (h : Sound s) (ht : Taken s s' id request status c)
    (hr : s.requests id = some request) (hkind : request.kind ≠ .neither)
    (hc : s.clients request.cn = some c) (halone : status ≠ .SUCCESS → Alone s id request) :
    Sound s' := by
  have hrequests {id' : Nat} {request' : Request} (hr' : s'.requests id' = some request') :
      id' ≠ id ∧ s.requests id' = some request' := of_update_none (ht.requests ▸ hr')
  have hsilent : statuses s.log id = [] := h.silent id (.inr ⟨request, hr, hkind⟩)
  constructor
  · refine ⟨fun id' => ?_, ht.faulted.trans h.proper.not_faulted⟩
    rw [ht.statuses_eq]
    by_cases hid : id = id'
    · rw [if_pos hid, ← hid, hsilent]
      exact Nat.le_refl 1
    · rw [if_neg hid, List.append_nil]
      exact h.proper.once id'
  · intro id' request' hr' hkind'
    obtain ⟨hne, hold⟩ := hrequests hr'
    exact ht.pending h hc halone hne hold hkind'
  · intro cn' c' id' request' hc' hmem
    exact ht.listed h hr hc hc' hmem
  · intro id' request' hr' hkind'
    rw [ht.next]
    exact h.bounds id' request' (hrequests hr').2 hkind'
  · intro id' request' hr' hkind'
    rw [ht.next]
    exact h.unfinished id' request' (hrequests hr').2 hkind'
  · rw [ht.next]
    exact h.positive
  · intro id' hid'
    have hne : id ≠ id' := by
      rintro rfl
      rcases hid' with hle | ⟨request', hr', -⟩
      · rw [ht.next] at hle
        exact absurd (h.bounds id request hr hkind).2 (Nat.not_lt.mpr hle)
      · exact (hrequests hr').1 rfl
    rw [ht.statuses_eq, if_neg hne, List.append_nil]
    refine h.silent id' (hid'.imp (ht.next ▸ ·) ?_)
    rintro ⟨request', hr', hkind'⟩
    exact ⟨request', (hrequests hr').2, hkind'⟩
  · intro id' hid'
    rw [ht.next]
    exact h.timers id' (ht.timers ▸ hid')
  · intro id' r' hr'
    exact h.remotes id' r' (ht.remotes ▸ hr')

/-- A request that is there is completed. -/
theorem Sound.completeRequest (h : Sound s) (status : Status) (hr : s.requests id = some request)
    (hkind : request.kind ≠ .neither) (halone : status ≠ .SUCCESS → Alone s id request) :
    Sound (completeRequest s id request status) := by
  obtain ⟨c, hc, -, hpeer⟩ := h.pending id request hr hkind
  obtain ⟨p, hp⟩ := Option.isSome_iff_exists.mp hpeer
  exact h.taken (taken_completeRequest hc hp) hr hkind hc halone

/-! ## What does not touch the requests -/

/-- The requests, and the completions on record, stay as they are. -/
structure Frame (s s' : Auth) : Prop where
  requests : s'.requests = s.requests
  clients : ∀ cn c', s'.clients cn = some c' →
    (∃ c, s.clients cn = some c ∧ c.requests = c'.requests) ∨ ∀ i, c'.requests i = none
  clients_old : ∀ cn c, s.clients cn = some c →
    ∃ c', s'.clients cn = some c' ∧ c'.requests = c.requests
  peers : ∀ cn, (s.peers cn).isSome → (s'.peers cn).isSome
  log : ∀ id, statuses s'.log id = statuses s.log id
  faulted : s'.faulted = s.faulted
  next : s'.nextRequestId = s.nextRequestId
  timers : ∀ id, s'.timers id = true → s.timers id = true
  remotes : ∀ id r', s'.remotes id = some r' →
    (∃ r, s.remotes id = some r ∧ r.request = r'.request)

theorem Frame.refl (s : Auth) : Frame s s where
  requests := rfl
  clients _ c hc := .inl ⟨c, hc, rfl⟩
  clients_old _ c hc := ⟨c, hc, rfl⟩
  peers _ h := h
  log _ := rfl
  faulted := rfl
  next := rfl
  timers _ h := h
  remotes _ r hr := ⟨r, hr, rfl⟩

theorem Sound.frame (h : Sound s) (hf : Frame s s') : Sound s' where
  proper := ⟨fun id => hf.log id ▸ h.proper.once id, hf.faulted.trans h.proper.not_faulted⟩
  pending id request hr hkind := by
    obtain ⟨c, hc, hmem, hpeer⟩ := h.pending id request (hf.requests ▸ hr) hkind
    obtain ⟨c', hc', heq⟩ := hf.clients_old _ c hc
    exact ⟨c', hc', heq ▸ hmem, hf.peers _ hpeer⟩
  listed cn c' id request hc' hmem := by
    rw [hf.requests]
    rcases hf.clients cn c' hc' with ⟨c, hc, heq⟩ | hnone
    · exact h.listed cn c id request hc (heq ▸ hmem)
    · rw [hnone id] at hmem
      cases hmem
  bounds id request hr hkind := hf.next ▸ h.bounds id request (hf.requests ▸ hr) hkind
  unfinished id request hr hkind := hf.next ▸ h.unfinished id request (hf.requests ▸ hr) hkind
  positive := hf.next ▸ h.positive
  silent id hid := by
    rw [hf.log]
    rw [hf.next, hf.requests] at hid
    exact h.silent id hid
  timers id hid := hf.next ▸ h.timers id (hf.timers id hid)
  remotes id r' hr' := by
    obtain ⟨r, hr, heq⟩ := hf.remotes id r' hr'
    exact heq ▸ h.remotes id r hr

/-- An entry that is no completion. -/
theorem Frame.write (s : Auth) {e : Entry} (he : ∀ id, statuses [e] id = []) :
    Frame s (s.write e) :=
  { Frame.refl s with
    log := fun id => by
      change statuses (s.log ++ [e]) id = statuses s.log id
      rw [statuses_append, he, List.append_nil] }

theorem Sound.sendChallenge (h : Sound s) (cn id : Nat) : Sound (sendChallenge s cn id) := by
  rw [AuthCore.sendChallenge]
  split
  · exact h
  · exact h.frame (Frame.write s fun _ => rfl)

theorem frame_init (s : Auth) (cn : Nat) : Frame s (initClientState s cn) := by
  unfold initClientState
  split
  · exact Frame.refl s
  · rename_i hnone
    refine { Frame.refl s with
      clients := fun cn' c' hc' => ?_
      clients_old := fun cn' c hc => ?_ }
    · by_cases hcn : cn' = cn
      · subst hcn
        change Function.update s.clients cn' _ cn' = some c' at hc'
        rw [Function.update_self] at hc'
        exact .inr fun i => by rw [← Option.some.inj hc']
      · exact .inl ⟨c', (Function.update_of_ne hcn ..).symm.trans hc', rfl⟩
    · have hcn : cn' ≠ cn := by
        rintro rfl
        rw [hnone] at hc
        cases hc
      exact ⟨c, (Function.update_of_ne hcn ..).trans hc, rfl⟩

/-- A request to an auth server changes, but not the request object that it is for. -/
theorem Frame.update_remote {r' : Remote} (hr : s.remotes id = some r)
    (hsame : r'.request = r.request) :
    Frame s { s with remotes := Function.update s.remotes id (some r') } := by
  refine { Frame.refl s with remotes := fun id' r'' hr'' => ?_ }
  by_cases hid : id' = id
  · subst hid
    change Function.update s.remotes id' _ id' = some r'' at hr''
    rw [Function.update_self] at hr''
    exact ⟨r, hr, hsame.symm.trans (congrArg Remote.request (Option.some.inj hr''))⟩
  · exact ⟨r'', (Function.update_of_ne hid ..).symm.trans hr'', rfl⟩

/-! ## A request is created -/

/-- Without the state of the client, the request object is in one table only. -/
theorem Sound.create_none (h : Sound s) (hc : s.clients cn = none) (kind : Kind) :
    Sound (createRequest s conn cn userId domain kind) := by
  rw [createRequest, hc]
  have hrequests {id : Nat} {request : Request}
      (hr : Function.update s.requests s.nextRequestId
        (some ⟨userId, cn, domain, .neither, conn⟩) id = some request)
      (hkind : request.kind ≠ .neither) : s.requests id = some request := by
    rcases of_update_some hr with ⟨-, rfl⟩ | ⟨-, hold⟩
    · exact absurd rfl hkind
    · exact hold
  refine
    { h with
      proper := ⟨h.proper.once, h.proper.not_faulted⟩
      pending := fun id request hr hkind => h.pending id request (hrequests hr hkind) hkind
      listed := fun cn' c id request hc' hmem => ?_
      bounds := fun id request hr hkind => h.bounds id request (hrequests hr hkind) hkind
      unfinished := fun id request hr hkind => ?_
      silent := fun id hid => h.silent id (hid.imp_right ?_) }
  · obtain ⟨hold, hcn, hkind⟩ := h.listed cn' c id request hc' hmem
    have hid : id ≠ s.nextRequestId := Nat.ne_of_lt (h.bounds id request hold hkind).2
    exact ⟨(Function.update_of_ne hid ..).trans hold, hcn, hkind⟩
  · by_cases hid : id = s.nextRequestId
    · exact hid
    · exact h.unfinished id request ((Function.update_of_ne hid ..).symm.trans hr) hkind
  · rintro ⟨request, hr, hkind⟩
    exact ⟨request, hrequests hr hkind, hkind⟩

/-- A request of a client that is there is in both tables. -/
theorem Sound.create (h : Sound s) (hc : s.clients cn = some c) (hpeer : (s.peers cn).isSome)
    {kind : Kind} (hkind : kind ≠ .neither) :
    Sound (createRequest s conn cn userId domain kind) := by
  rw [createRequest, hc]
  dsimp only
  have hlog (id : Nat) : statuses (s.log ++ [.created s.nextRequestId conn userId domain]) id =
      statuses s.log id := by
    rw [statuses_append]
    exact List.append_nil _
  constructor
  · exact ⟨fun id => (hlog id) ▸ h.proper.once id, h.proper.not_faulted⟩
  · intro id request hr hkind'
    rcases of_update_some hr with ⟨rfl, rfl⟩ | ⟨hid, hold⟩
    · exact ⟨_, Function.update_self .., Function.update_self .., hpeer⟩
    · obtain ⟨c', hc', hmem, hpeer'⟩ := h.pending id request hold hkind'
      by_cases hcn : request.cn = cn
      · rw [hcn] at hc' hpeer' ⊢
        cases Option.some.inj (hc.symm.trans hc')
        exact ⟨_, Function.update_self .., (Function.update_of_ne hid ..).trans hmem, hpeer'⟩
      · exact ⟨c', (Function.update_of_ne hcn ..).trans hc', hmem, hpeer'⟩
  · intro cn' c' id request hc' hmem
    have hold_case {c₀ : Client} (hc₀ : s.clients cn' = some c₀)
        (hmem₀ : c₀.requests id = some request) :
        Function.update s.requests s.nextRequestId (some ⟨userId, cn, domain, kind, conn⟩) id =
          some request ∧ request.cn = cn' ∧ request.kind ≠ .neither := by
      obtain ⟨hold, hcn', hkind'⟩ := h.listed cn' c₀ id request hc₀ hmem₀
      have hid : id ≠ s.nextRequestId := Nat.ne_of_lt (h.bounds id request hold hkind').2
      exact ⟨(Function.update_of_ne hid ..).trans hold, hcn', hkind'⟩
    by_cases hcn : cn' = cn
    · subst hcn
      change Function.update s.clients cn' _ cn' = some c' at hc'
      rw [Function.update_self] at hc'
      rw [← Option.some.inj hc'] at hmem
      by_cases hid : id = s.nextRequestId
      · subst hid
        change Function.update c.requests s.nextRequestId _ s.nextRequestId =
          some request at hmem
        rw [Function.update_self] at hmem
        rw [← Option.some.inj hmem]
        exact ⟨Function.update_self .., rfl, hkind⟩
      · exact hold_case hc ((Function.update_of_ne hid ..).symm.trans hmem)
    · exact hold_case ((Function.update_of_ne hcn ..).symm.trans hc') hmem
  · intro id request hr hkind'
    rcases of_update_some hr with ⟨rfl, rfl⟩ | ⟨-, hold⟩
    · exact ⟨h.positive, Nat.lt_succ_self _⟩
    · obtain ⟨hone, hlt⟩ := h.bounds id request hold hkind'
      exact ⟨hone, Nat.lt_succ_of_lt hlt⟩
  · intro id request hr hkind'
    rcases of_update_some hr with ⟨rfl, rfl⟩ | ⟨hid, hold⟩
    · exact absurd hkind' hkind
    · exact absurd (h.unfinished id request hold hkind') hid
  · exact Nat.le_succ_of_le h.positive
  · intro id hid
    rw [hlog]
    rcases hid with hle | ⟨request, hr, hkind'⟩
    · exact h.silent id (.inl (Nat.le_of_succ_le hle))
    · rcases of_update_some hr with ⟨rfl, rfl⟩ | ⟨-, hold⟩
      · exact h.silent _ (.inl (Nat.le_refl _))
      · exact h.silent id (.inr ⟨request, hold, hkind'⟩)
  · intro id hid
    by_cases heq : id = s.nextRequestId
    · exact heq ▸ Nat.lt_succ_self _
    · exact Nat.lt_succ_of_lt (h.timers id ((Function.update_of_ne heq ..).symm.trans hid))
  · exact h.remotes

theorem Sound.sendRequest (h : Sound s)
    (hpeer : (s.peers cn).isSome ∨ s.clients cn = none) :
    Sound (sendRequest s conn cn userId domain) := by
  rw [AuthCore.sendRequest]
  cases hc : s.clients cn with
  | none => exact h.create_none hc _
  | some c =>
    have hthere : (s.peers cn).isSome := hpeer.resolve_right (by simp [hc])
    have hcreate : Sound (createRequest s conn cn userId domain .remoteRequest) :=
      h.create hc hthere (by simp)
    refine { hcreate with
      proper := ⟨hcreate.proper.once, hcreate.proper.not_faulted⟩
      remotes := fun id r hr => ?_ }
    by_cases hid : id = s.nextRequestId
    · subst hid
      change Function.update (createRequest s conn cn userId domain .remoteRequest).remotes
        s.nextRequestId _ s.nextRequestId = some r at hr
      rw [Function.update_self] at hr
      rw [← Option.some.inj hr]
    · exact hcreate.remotes id r ((Function.update_of_ne hid ..).symm.trans hr)

theorem Sound.startAuthChallenge (h : Sound s) (cn : Nat) (userId domain : String)
    (route : Route) : Sound (startAuthChallenge s cn userId domain route) := by
  rw [AuthCore.startAuthChallenge]
  cases hp : s.peers cn with
  | none => exact h
  | some p =>
    have hasked : Sound ((initClientState s cn).write (.asked p.conn userId domain)) :=
      (h.frame (frame_init s cn)).frame (Frame.write _ fun _ => rfl)
    have hpeer :
        (((initClientState s cn).write (.asked p.conn userId domain)).peers cn).isSome :=
      Option.isSome_iff_exists.mpr ⟨p, (congrFun (peers_init s cn) cn).trans hp⟩
    dsimp only
    split
    · exact hasked
    · cases route with
      | unknownDomain => exact hasked
      | unknownUser => exact hasked
      | localKey =>
        refine Sound.sendChallenge ?_ cn _
        cases hc : ((initClientState s cn).write (.asked p.conn userId domain)).clients cn with
        | none => exact hasked.create_none hc _
        | some c => exact hasked.create hc hpeer (by simp)
      | connected => exact hasked.sendRequest (.inl hpeer)
      | notConnected => exact hasked.frame { Frame.refl _ with }

theorem Sound.connected (h : Sound s) (k : Nat) (error_message : Bool)
    (horderly : Orderly s (.connected k error_message)) : Sound (connected s k error_message) := by
  rw [AuthCore.connected]
  cases hd : s.deferred[k]? with
  | none => exact h
  | some d =>
    have hless : Sound { s with deferred := s.deferred.eraseIdx k } :=
      h.frame { Frame.refl s with }
    cases error_message with
    | true => exact hless
    | false => exact hless.sendRequest (horderly d hd)

/-! ## Answers, replies and timers -/

/-- A request to an auth server fails, or succeeds with an answer, while its request is there. -/
theorem Sound.finishRemote (h : Sound s) (hr : s.remotes id = some r) (success : Bool)
    (hpending : success = false ∨ r.completionHandler = .answer → Pending s id r) :
    Sound (finishRemote s id r success) := by
  have hkind : r.request.kind ≠ .neither := by
    rw [h.remotes id r hr]
    nofun
  have hframe : Frame s
      { s with remotes := Function.update s.remotes id (some { r with completed := true }) } :=
    Frame.update_remote hr rfl
  have hdone := h.frame hframe
  rcases r with ⟨request, challenged, completed, _ | _⟩
  · cases success with
    | true => exact hdone.sendChallenge request.cn id
    | false =>
      obtain ⟨hrequest, halone⟩ := hpending (.inl rfl)
      exact hdone.completeRequest .CHALLENGE_FAILED hrequest hkind fun _ => halone
  · obtain ⟨hrequest, halone⟩ := hpending (.inr rfl)
    cases success with
    | true => exact hdone.completeRequest .SUCCESS hrequest hkind fun _ => halone
    | false => exact hdone.completeRequest .RESPONSE_FAILED hrequest hkind fun _ => halone

theorem Sound.processReply (h : Sound s) (hr : s.remotes id = some r) {reply : Reply}
    (horderly : Orderly s (.reply id reply)) : Sound (processReply s id r reply) := by
  unfold AuthCore.processReply
  split
  · exact h
  · rename_i hcompleted
    have hpending := horderly r hr (Bool.eq_false_iff.mpr hcompleted)
    cases reply with
    | chalauth =>
      dsimp only
      split
      · rename_i hch
        exact h.finishRemote hr false fun _ => hpending (.inl hch)
      · have hkind : r.request.kind ≠ .neither := by
          rw [h.remotes id r hr]
          nofun
        have hframe : Frame s
            { s with
              remotes := Function.update s.remotes id (some { r with challenged := true }) } :=
          Frame.update_remote hr rfl
        have hchallenged := h.frame hframe
        rcases r with ⟨request, challenged, completed, _ | _⟩
        · exact hchallenged.sendChallenge request.cn id
        · -- An answer that was sent before the challenge.
          obtain ⟨hrequest, halone⟩ := hpending (.inr rfl)
          exact hchallenged.completeRequest .SUCCESS hrequest hkind fun _ => halone
    | failauth => exact h.finishRemote hr false fun _ => hpending trivial
    | succauth conn =>
      dsimp only
      split
      · refine (h.frame (Frame.write s fun _ => rfl)).finishRemote hr true fun hcase => ?_
        exact hpending (.inr (hcase.resolve_left (Ne.symm Bool.false_ne_true)))
      · rename_i hch
        exact h.finishRemote hr false fun _ => hpending (.inl (Bool.eq_false_iff.mpr hch))

theorem Sound.authChallengeResponse (h : Sound s) {correct : Bool}
    (horderly : Orderly s (.authChallengeResponse cn id correct)) :
    Sound (authChallengeResponse s cn id correct) := by
  unfold AuthCore.authChallengeResponse
  split
  · rename_i p request hp hq
    split
    · split
      · exact h
      · rename_i r hr
        refine (h.frame (Frame.update_remote hr ?_)).frame (Frame.write _ fun _ => rfl)
        rfl
    · rename_i hkind
      have hproper : request.kind ≠ .neither := by
        rw [hkind]
        nofun
      cases correct with
      | true =>
        have hwrite : Sound (s.write (.accepted p.conn id)) := h.frame (Frame.write s fun _ => rfl)
        exact hwrite.completeRequest .SUCCESS hq hproper fun hne => absurd rfl hne
      | false =>
        exact h.completeRequest .RESPONSE_FAILED hq hproper fun _ => horderly request hq hkind
    · exact h
  · exact h

theorem Sound.timer (h : Sound s) (horderly : Orderly s (.timer id)) : Sound (timer s id) := by
  unfold AuthCore.timer
  split
  · rename_i htimer
    have hfired : Sound { s with timers := Function.update s.timers id false } := by
      refine h.frame { Frame.refl s with timers := fun id' hid' => ?_ }
      by_cases heq : id' = id
      · exact heq ▸ htimer
      · exact (Function.update_of_ne heq ..).symm.trans hid'
    dsimp only
    split
    · exact hfired
    · rename_i request hr
      have hkind : request.kind ≠ .neither := fun hkind => by
        have hlt := h.timers id htimer
        rw [h.unfinished id request hr hkind] at hlt
        exact Nat.lt_irrefl _ hlt
      exact hfired.completeRequest .TIMEOUT hr hkind fun _ => horderly request hr
  · exact h

/-! ## Clients come and go -/

theorem Sound.arrive (h : Sound s) (cn : Nat) : Sound (arrive s cn) := by
  unfold AuthCore.arrive
  split
  · exact h
  · refine h.frame { Frame.refl s with peers := fun cn' hcn' => ?_ }
    by_cases hcn : cn' = cn
    · subst hcn
      exact Option.isSome_iff_exists.mpr ⟨_, Function.update_self ..⟩
    · change (Function.update s.peers cn _ cn').isSome
      rwa [Function.update_of_ne hcn]

theorem Sound.join (h : Sound s) (cn : Nat) : Sound (join s cn) := by
  unfold AuthCore.join
  split
  · exact h
  · refine Sound.frame ?_ (frame_init _ cn)
    refine h.frame { Frame.refl s with peers := fun cn' hcn' => ?_ }
    by_cases hcn : cn' = cn
    · subst hcn
      exact Option.isSome_iff_exists.mpr ⟨_, Function.update_self ..⟩
    · change (Function.update s.peers cn _ cn').isSome
      rwa [Function.update_of_ne hcn]

/-- The loop of the event `disconnect` has cancelled all requests of the client. -/
structure Emptied (s s' : Auth) (cn : Nat) (c : Client) : Prop where
  sound : Sound s'
  log : ∀ e ∈ s.log, e ∈ s'.log
  empty : ∃ c', s'.clients cn = some c' ∧ ∀ i, c'.requests i = none
  cancelled : ∀ i request, c.requests i = some request →
    Entry.completed i .CANCELLED ∈ s'.log

/-- A client has no request with an id that has not been given yet. -/
theorem Sound.requests_above (h : Sound s) (hc : s.clients cn = some c) {k : Nat}
    (hk : s.nextRequestId ≤ k) : c.requests k = none := by
  cases hmem : c.requests k with
  | none => rfl
  | some request =>
    obtain ⟨hr, -, hkind⟩ := h.listed cn c k request hc hmem
    exact absurd (h.bounds k request hr hkind).2 (Nat.not_lt.mpr hk)

/-- Where there is no gap, nothing comes behind the end. -/
theorem emptied_of_none (h : Sound s) (hc : s.clients cn = some c) {i : Nat}
    (hdown : ∀ k j, i ≤ j → j ≤ k → (c.requests k).isSome → (c.requests j).isSome)
    (hbelow : ∀ k, k < i → c.requests k = none) (hi : c.requests i = none) :
    Emptied s s cn c := by
  have hnone (k : Nat) : c.requests k = none := by
    rcases Nat.lt_or_ge k i with hlt | hge
    · exact hbelow k hlt
    · cases hmem : c.requests k with
      | none => rfl
      | some request =>
        have hsome := hdown k i (Nat.le_refl i) hge (Option.isSome_iff_exists.mpr ⟨_, hmem⟩)
        rw [hi] at hsome
        cases hsome
  refine ⟨h, fun _ he => he, ⟨c, hc, hnone⟩, fun k request hmem => ?_⟩
  rw [hnone k] at hmem
  cases hmem

/-- From the request `i` on, the requests of the client have no gap; then the loop cancels them
all. -/
theorem emptied_cancelLoop (fuel i : Nat) (h : Sound s) (hc : s.clients cn = some c)
    (hp : s.peers cn = some p) (hjoined : p.joined = true)
    (hdown : ∀ k j, i ≤ j → j ≤ k → (c.requests k).isSome → (c.requests j).isSome)
    (hbelow : ∀ k, k < i → c.requests k = none) (hfuel : s.nextRequestId ≤ fuel + i) :
    Emptied s (cancelLoop fuel i cn s) cn c := by
  induction fuel generalizing i s c with
  | zero => exact emptied_of_none h hc hdown hbelow (h.requests_above hc (by omega))
  | succ fuel ih =>
    rw [cancelLoop, hc, Option.bind_some]
    cases hi : c.requests i with
    | none => exact emptied_of_none h hc hdown hbelow hi
    | some request =>
      dsimp only
      obtain ⟨hr, hcn, hkind⟩ := h.listed cn c i request hc hi
      subst hcn
      have ht : Taken s (completeRequest s i request .CANCELLED) i request .CANCELLED c :=
        taken_completeRequest hc hp
      have halone : Alone s i request := by
        intro p' c' hp' hjoined'
        cases Option.some.inj (hp.symm.trans hp')
        rw [hjoined] at hjoined'
        cases hjoined'
      have hsound := h.taken ht hr hkind hc fun _ => halone
      obtain ⟨authed, hclients⟩ := ht.clients
      have hc' : (completeRequest s i request .CANCELLED).clients request.cn =
          some ⟨authed, Function.update c.requests i none⟩ := by
        rw [hclients, Function.update_self]
      have hrest := ih (i + 1) hsound hc' (ht.joined p hp hjoined)
        (fun k j hij hjk hk => by
          dsimp only at hk ⊢
          rw [Function.update_of_ne (by omega)] at hk ⊢
          exact hdown k j (by omega) hjk hk)
        (fun k hk => by
          by_cases hki : k = i
          · subst hki
            exact Function.update_self ..
          · exact (Function.update_of_ne hki ..).trans (hbelow k (by omega)))
        (by rw [ht.next]; omega)
      have hlog : ∀ e ∈ s.log, e ∈ (completeRequest s i request .CANCELLED).log := by
        rw [ht.log]
        exact fun e he => List.mem_append_left _ he
      refine ⟨hrest.sound, fun e he => hrest.log e (hlog e he), hrest.empty,
        fun k request' hk => ?_⟩
      by_cases hki : k = i
      · subst hki
        refine hrest.log _ ?_
        rw [ht.log]
        exact List.mem_append_right _ List.mem_cons_self
      · exact hrest.cancelled k request' ((Function.update_of_ne hki ..).trans hk)

/-- The state of a client without requests is dropped, and its connection ends. -/
theorem Sound.drop (h : Sound s) (hempty : ∀ c, s.clients cn = some c → ∀ i, c.requests i = none)
    {clients : Nat → Option Client} (hclients : clients = s.clients ∨
      clients = Function.update s.clients cn none) :
    Sound { s with clients := clients, peers := Function.update s.peers cn none } := by
  have hold {cn' : Nat} {c : Client} (hc : clients cn' = some c) : s.clients cn' = some c := by
    rcases hclients with rfl | rfl
    · exact hc
    · exact (of_update_none hc).2
  refine
    { h with
      proper := ⟨h.proper.once, h.proper.not_faulted⟩
      pending := fun id request hr hkind => ?_
      listed := fun cn' c id request hc hmem => h.listed cn' c id request (hold hc) hmem }
  obtain ⟨c, hc, hmem, hpeer⟩ := h.pending id request hr hkind
  have hcn : request.cn ≠ cn := by
    intro heq
    rw [hempty c (heq ▸ hc) id] at hmem
    cases hmem
  refine ⟨c, ?_, hmem, ?_⟩
  · rcases hclients with rfl | rfl
    · exact hc
    · exact (Function.update_of_ne hcn ..).trans hc
  · change (Function.update s.peers cn none request.cn).isSome
    rwa [Function.update_of_ne hcn]

/-- A request that is there is one of its client. -/
theorem Sound.mem_client (h : Sound s) (hr : s.requests id = some request)
    (hkind : request.kind ≠ .neither) (hc : s.clients request.cn = some c) :
    c.requests id = some request := by
  obtain ⟨c', hc', hmem, -⟩ := h.pending id request hr hkind
  cases Option.some.inj (hc.symm.trans hc')
  exact hmem

/-- A client without requests leaves. -/
theorem Sound.leave_empty (h : Sound s)
    (hempty : ∀ c, s.clients cn = some c → ∀ i, c.requests i = none) :
    Sound { s with peers := Function.update s.peers cn none } ∧
      ∀ id request, s.requests id = some request → request.kind ≠ .neither → request.cn ≠ cn := by
  refine ⟨h.drop hempty (.inl rfl), fun id request hr hkind hcn => ?_⟩
  obtain ⟨c, hc, hmem, -⟩ := h.pending id request hr hkind
  rw [hempty c (hcn ▸ hc) id] at hmem
  cases hmem

/-- A client that has joined the game leaves: its requests are cancelled, and its state is
dropped. -/
theorem Sound.leave_joined (h : Sound s) (hp : s.peers cn = some p) (hjoined : p.joined = true)
    (hc : s.clients cn = some c)
    (hdown : ∀ i j, 1 ≤ j → j ≤ i → (c.requests i).isSome → (c.requests j).isSome) :
    Sound (leave s cn) ∧ Cancelled s cn := by
  have hzero : c.requests 0 = none := by
    cases hmem : c.requests 0 with
    | none => rfl
    | some request =>
      obtain ⟨hr, -, hkind⟩ := h.listed cn c 0 request hc hmem
      exact absurd (h.bounds 0 request hr hkind).1 (by decide)
  have hemptied := emptied_cancelLoop s.nextRequestId 1 h hc hp hjoined
    (fun k j hj hjk => hdown k j hj hjk)
    (fun k hk => by
      rw [Nat.lt_one_iff.mp hk]
      exact hzero)
    (Nat.le_succ _)
  have hsmaller := smaller_cancelLoop s.nextRequestId 1 cn s
  have hleave : leave s cn =
      { cancelLoop s.nextRequestId 1 cn s with
        clients := Function.update (cancelLoop s.nextRequestId 1 cn s).clients cn none
        peers := Function.update (cancelLoop s.nextRequestId 1 cn s).peers cn none } := by
    rw [AuthCore.leave, hp]
    dsimp only
    rw [if_pos hjoined, AuthCore.disconnect, hc]
  obtain ⟨c', hc', hempty⟩ := hemptied.empty
  rw [Cancelled, hleave]
  refine ⟨hemptied.sound.drop (fun c'' hc'' => ?_) (.inr rfl), fun id request hr hkind hcn => ?_⟩
  · cases Option.some.inj (hc'.symm.trans hc'')
    exact hempty
  · subst hcn
    refine ⟨hemptied.cancelled id request (h.mem_client hr hkind hc), ?_⟩
    cases hstill : (cancelLoop s.nextRequestId 1 request.cn s).requests id with
    | none => rfl
    | some request' =>
      cases Option.some.inj (hr.symm.trans (hsmaller.requests id request' hstill))
      have hmem := hemptied.sound.mem_client hstill hkind hc'
      rw [hempty id] at hmem
      cases hmem

theorem Sound.leave (h : Sound s) (horderly : Orderly s (.leave cn)) :
    Sound (leave s cn) ∧ Cancelled s cn := by
  cases hp : s.peers cn with
  | none =>
    have hleave : AuthCore.leave s cn = s := by rw [AuthCore.leave, hp]
    rw [Cancelled, hleave]
    refine ⟨h, fun id request hr hkind hcn => ?_⟩
    obtain ⟨c, -, -, hpeer⟩ := h.pending id request hr hkind
    rw [hcn, hp] at hpeer
    cases hpeer
  | some p =>
    have hempty_case (hempty : ∀ c, s.clients cn = some c → ∀ i, c.requests i = none)
        (hleave : AuthCore.leave s cn = { s with peers := Function.update s.peers cn none }) :
        Sound (AuthCore.leave s cn) ∧ Cancelled s cn := by
      obtain ⟨hsound, hnone⟩ := h.leave_empty hempty
      rw [hleave]
      exact ⟨hsound, fun id request hr hkind hcn => absurd hcn (hnone id request hr hkind)⟩
    by_cases hjoined : p.joined = true
    · cases hc : s.clients cn with
      | none =>
        refine hempty_case (fun c hc' => ?_) ?_
        · rw [hc] at hc'
          cases hc'
        · rw [AuthCore.leave, hp]
          dsimp only
          rw [if_pos hjoined, AuthCore.disconnect, hc]
      | some c =>
        have hdown := horderly p c hp hc
        rw [if_pos hjoined] at hdown
        exact h.leave_joined hp hjoined hc hdown
    · refine hempty_case (fun c hc => ?_) ?_
      · have hnone := horderly p c hp hc
        rwa [if_neg hjoined] at hnone
      · rw [AuthCore.leave, hp]
        dsimp only
        rw [if_neg hjoined]

/-! ## Every run -/

theorem sound_init : Sound Auth.init where
  proper := ⟨fun _ => Nat.zero_le _, rfl⟩
  pending _ _ := nofun
  listed _ _ _ _ := nofun
  bounds _ _ := nofun
  unfinished _ _ := nofun
  positive := Nat.le_refl _
  silent _ _ := rfl
  timers _ := nofun
  remotes _ _ := nofun

theorem Sound.step (s : Auth) (a : Action) (horderly : Orderly s a) (h : Sound s) :
    Sound (step s a) := by
  cases a with
  | arrive cn => exact h.arrive cn
  | join cn => exact h.join cn
  | leave cn => exact (h.leave horderly).1
  | requestAuthChallenge cn userId domain route =>
    exact h.startAuthChallenge cn userId domain route
  | connected k error_message => exact h.connected k error_message horderly
  | authChallengeResponse cn id correct => exact h.authChallengeResponse horderly
  | reply id reply =>
    unfold AuthCore.step
    dsimp only
    split
    · exact h
    · exact h.processReply ‹_› horderly
  | sendFailed id =>
    unfold AuthCore.step
    dsimp only
    split
    · exact h
    · rename_i r hr
      split
      · exact h
      · rename_i hcompleted
        exact h.finishRemote hr false fun _ => horderly r hr (Bool.eq_false_iff.mpr hcompleted)
  | readFailed id =>
    unfold AuthCore.step
    dsimp only
    split
    · exact h
    · rename_i r hr
      exact h.finishRemote hr false fun _ => horderly r hr
  | timer id => exact h.timer horderly

/-- In an orderly run every request is completed once at most, no completion indexes the state of a
client that is gone, and the requests of a client are cancelled when it leaves. -/
theorem completed_once (as : List Action) (horderly : Along Orderly step Auth.init as) :
    (∀ bs cs, as = bs ++ cs → Proper (Machine.run step Auth.init bs)) ∧
      ∀ bs cn cs, as = bs ++ .leave cn :: cs → Cancelled (Machine.run step Auth.init bs) cn := by
  constructor
  · rintro bs cs rfl
    exact ((along_append.mp horderly).1.inv Sound.step sound_init).proper
  · rintro bs cn cs rfl
    obtain ⟨hbefore, hleave, -⟩ := along_append.mp horderly
    exact ((hbefore.inv Sound.step sound_init).leave hleave).2

/-- Two clients have asked, and the second one leaves. -/
def secondLeaves : List Action :=
  [.arrive 0, .join 0, .arrive 1, .join 1, .requestAuthChallenge 0 "u" "d" .localKey,
    .requestAuthChallenge 1 "v" "d" .localKey]

/-- The loop stops before the second request; then its timer finds no client. -/
theorem second_not_cancelled : ¬ Cancelled (Machine.run step Auth.init secondLeaves) 1 ∧
    ¬ Proper (Machine.run step Auth.init (secondLeaves ++ [.leave 1, .timer 2])) := by
  constructor
  · intro h
    have hrequest : (Machine.run step Auth.init secondLeaves).requests 2 =
        some ⟨"v", 1, "d", .localRequest, 1⟩ := rfl
    have hthere : (leave (Machine.run step Auth.init secondLeaves) 1).requests 2 =
        some ⟨"v", 1, "d", .localRequest, 1⟩ := rfl
    have hgone := (h 2 _ hrequest nofun rfl).2
    rw [hthere] at hgone
    cases hgone
  · intro h
    have hfaulted :
        (Machine.run step Auth.init (secondLeaves ++ [.leave 1, .timer 2])).faulted = true := rfl
    rw [h.not_faulted] at hfaulted
    cases hfaulted

/-- A client asks, and leaves before it has answered. -/
theorem completed_once_leaves : (∀ bs cs, [.arrive 0, .join 0,
    .requestAuthChallenge 0 "u" "d" .localKey, .leave 0] = bs ++ cs →
      Proper (Machine.run step Auth.init bs)) ∧
    ∀ bs cn cs, [.arrive 0, .join 0, .requestAuthChallenge 0 "u" "d" .localKey, .leave 0] =
      bs ++ .leave cn :: cs → Cancelled (Machine.run step Auth.init bs) cn := by
  refine completed_once _ ⟨trivial, trivial, trivial, fun p c hp hc => ?_, trivial⟩
  have hjoined : p.joined = true := by
    rw [← Option.some.inj hp]
  have hrequests : c.requests = Function.update (fun _ => none) 1
      (some ⟨"u", 0, "d", .localRequest, 0⟩) := by
    rw [← Option.some.inj hc]
    rfl
  rw [if_pos hjoined, hrequests]
  intro i j hj hji hi
  -- the only request has the id 1
  have hone : i = 1 := by
    by_contra hne
    rw [Function.update_of_ne hne] at hi
    cases hi
  rw [Nat.le_antisymm (hone ▸ hji) hj]
  rfl

end AuthCore

end Zuckerserv
