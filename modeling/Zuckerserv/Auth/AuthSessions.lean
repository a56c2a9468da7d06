import Zuckerserv.Auth.AuthCore
import Zuckerserv.Lib.Table

/-!
# Who is authenticated

A request belongs to the connection that asked for it, but is known by a client number, and any
client can answer it.

* `Genuine` — whoever is authenticated has asked for it, got the challenge, and given the answer.
* `Fair` — a request is answered by its owner, after the challenge, and succeeds while the owner is
  there.
* `genuine_run` — then whoever is authenticated is genuine, in any run.
-/

namespace Zuckerserv

namespace AuthCore

open Machine Table

/-! ## The property -/

/-- The connection has asked to be the user, a request has been created for it, its challenge has
been sent to the connection, and its answer has been accepted. -/
def Earned (s : Auth) (conn : Nat) (userId domain : String) : Prop :=
  Entry.asked conn userId domain ∈ s.log ∧ ∃ id, Entry.created id conn userId domain ∈ s.log ∧
    Entry.issued conn id ∈ s.log ∧ Entry.accepted conn id ∈ s.log

/-- Who is authenticated under a client number is so by the connection that has the number now. -/
def Genuine (s : Auth) : Prop :=
  ∀ cn c domain userId, s.clients cn = some c → c.authed domain = some userId →
    ∃ p, s.peers cn = some p ∧ Earned s p.conn userId domain

/-- The connection that asked for the request still has its client number. -/
def Owned (s : Auth) (request : Request) : Prop :=
  ∃ p, s.peers request.cn = some p ∧ p.conn = request.conn

/-- An answer comes from the connection that asked for the request, and not before the challenge of
an auth server. An auth server reports success for an answer that has been sent, and while that
connection is there. -/
def Fair (s : Auth) : Action → Prop
  | .authChallengeResponse cn id _ => ∀ request, s.requests id = some request →
    request.kind ≠ .neither → cn = request.cn ∧ Owned s request ∧
      ∀ r, s.remotes id = some r → request.kind = .remoteRequest → r.challenged = true
  | .reply id (.succauth conn) => ∀ r, s.remotes id = some r → r.completed = false →
    r.challenged = true → Entry.answered conn id ∈ s.log ∧ Owned s r.request
  | _ => True

/-! ## What is kept -/

/-- The request has been asked for, and created. -/
structure Made (s : Auth) (id : Nat) (request : Request) : Prop where
  asked : Entry.asked request.conn request.userId request.domain ∈ s.log
  created : Entry.created id request.conn request.userId request.domain ∈ s.log
  conn : request.conn < s.connections
  id_lt : id < s.nextRequestId

/-- What holds in a run that is fair. -/
structure Kept (s : Auth) : Prop where
  peers : ∀ cn p, s.peers cn = some p → p.conn < s.connections
  made : ∀ id request, s.requests id = some request → request.kind ≠ .neither → Made s id request
  issued : ∀ id request, s.requests id = some request → request.kind = .localRequest →
    Entry.issued request.conn id ∈ s.log
  remote : ∀ id request, s.requests id = some request → request.kind = .remoteRequest →
    ∃ r, s.remotes id = some r ∧ r.request = request
  remote_made : ∀ id r, s.remotes id = some r → Made s id r.request
  challenged : ∀ id r, s.remotes id = some r → r.challenged = true → Owned s r.request →
    Entry.issued r.request.conn id ∈ s.log
  handler : ∀ id r, s.remotes id = some r → r.completionHandler = .answer → r.challenged = true
  answers : ∀ id r conn, s.remotes id = some r → Entry.answered conn id ∈ s.log →
    conn = r.request.conn
  fresh : ∀ conn id, Entry.answered conn id ∈ s.log → id < s.nextRequestId
  deferred : ∀ d ∈ s.deferred,
    Entry.asked d.conn d.userId d.domain ∈ s.log ∧ d.conn < s.connections
  authed : ∀ cn c domain userId, s.clients cn = some c → c.authed domain = some userId →
    ∃ p, s.peers cn = some p ∧ p.joined = true ∧ Earned s p.conn userId domain

theorem Kept.genuine {s : Auth} (h : Kept s) : Genuine s := by
  intro cn c domain userId hc hauthed
  obtain ⟨p, hp, -, hearned⟩ := h.authed cn c domain userId hc hauthed
  exact ⟨p, hp, hearned⟩

variable {s s' : Auth} {cn id conn : Nat} {request : Request} {r : Remote} {status : Status}
  {c : Client} {p : Peer} {userId domain : String}

theorem Earned.mono (h : Earned s conn userId domain) (hlog : ∀ e ∈ s.log, e ∈ s'.log) :
    Earned s' conn userId domain := by
  obtain ⟨hasked, id, hcreated, hissued, haccepted⟩ := h
  exact ⟨hlog _ hasked, id, hlog _ hcreated, hlog _ hissued, hlog _ haccepted⟩

/-- A step that creates nothing: requests and connections can only go, and no answer is recorded. -/
structure Smaller (s s' : Auth) : Prop where
  log : ∀ e ∈ s.log, e ∈ s'.log
  answered : ∀ conn id, Entry.answered conn id ∈ s'.log → Entry.answered conn id ∈ s.log
  requests : ∀ id request, s'.requests id = some request → s.requests id = some request
  remotes : s'.remotes = s.remotes
  deferred : ∀ d ∈ s'.deferred, d ∈ s.deferred
  connections : s'.connections = s.connections
  next : s'.nextRequestId = s.nextRequestId
  peers : ∀ cn p', s'.peers cn = some p' → ∃ p, s.peers cn = some p ∧ p.conn = p'.conn
  authed : ∀ cn c' domain userId, s'.clients cn = some c' → c'.authed domain = some userId →
    (∃ c, s.clients cn = some c ∧ c.authed domain = some userId) ∧
      ∀ p, s.peers cn = some p → p.joined = true → s'.peers cn = some p

theorem Made.smaller (h : Made s id request) (hs : Smaller s s') : Made s' id request :=
  ⟨hs.log _ h.asked, hs.log _ h.created, hs.connections ▸ h.conn, hs.next ▸ h.id_lt⟩

theorem Smaller.owned (hs : Smaller s s') (h : Owned s' request) : Owned s request := by
  obtain ⟨p', hp', hconn⟩ := h
  obtain ⟨p, hp, heq⟩ := hs.peers _ p' hp'
  exact ⟨p, hp, heq.trans hconn⟩

theorem Kept.smaller (h : Kept s) (hs : Smaller s s') : Kept s' where
  peers cn p' hp' := by
    obtain ⟨p, hp, heq⟩ := hs.peers cn p' hp'
    rw [hs.connections, ← heq]
    exact h.peers cn p hp
  made id request hr hkind := (h.made id request (hs.requests id request hr) hkind).smaller hs
  issued id request hr hkind := hs.log _ (h.issued id request (hs.requests id request hr) hkind)
  remote id request hr hkind := by
    rw [hs.remotes]
    exact h.remote id request (hs.requests id request hr) hkind
  remote_made id r hr := (h.remote_made id r (hs.remotes ▸ hr)).smaller hs
  challenged id r hr hch howned :=
    hs.log _ (h.challenged id r (hs.remotes ▸ hr) hch (hs.owned howned))
  handler id r hr := h.handler id r (hs.remotes ▸ hr)
  answers id r conn hr ha := h.answers id r conn (hs.remotes ▸ hr) (hs.answered conn id ha)
  fresh conn id ha := hs.next ▸ h.fresh conn id (hs.answered conn id ha)
  deferred d hd := by
    obtain ⟨hasked, hconn⟩ := h.deferred d (hs.deferred d hd)
    exact ⟨hs.log _ hasked, hs.connections ▸ hconn⟩
  authed cn c' domain userId hc' hauthed := by
    obtain ⟨⟨c, hc, hold⟩, hpeer⟩ := hs.authed cn c' domain userId hc' hauthed
    obtain ⟨p, hp, hjoined, hearned⟩ := h.authed cn c domain userId hc hold
    exact ⟨p, hpeer p hp hjoined, hjoined, hearned.mono hs.log⟩

theorem Smaller.refl (s : Auth) : Smaller s s where
  log _ h := h
  answered _ _ h := h
  requests _ _ h := h
  remotes := rfl
  deferred _ h := h
  connections := rfl
  next := rfl
  peers _ p h := ⟨p, h, rfl⟩
  authed _ c _ _ h ha := ⟨⟨c, h, ha⟩, fun _ hp _ => hp⟩

/-- An entry that is no answer changes nothing else. -/
theorem Smaller.write {e : Entry} (he : ∀ conn id, e ≠ .answered conn id) :
    Smaller s (s.write e) :=
  { Smaller.refl s with
    log := fun _ h => List.mem_append_left _ h
    answered := fun conn id h => by
      rcases List.mem_append.mp h with hold | hnew
      · exact hold
      · exact absurd (List.mem_singleton.mp hnew).symm (he conn id) }

/-! ## A request is completed -/

/-- The state of a client changes only in its requests. -/
theorem authed_update {authed : String → Option String}
    (hc : s.clients cn = some c) (hauthed : c.authed = authed) {reqs : Nat → Option Request}
    {cn' : Nat} {c' : Client}
    (hc' : Function.update s.clients cn (some ⟨authed, reqs⟩) cn' = some c') :
    ∃ c'', s.clients cn' = some c'' ∧ c''.authed = c'.authed := by
  by_cases hcn : cn' = cn
  · subst hcn
    rw [Function.update_self] at hc'
    exact ⟨c, hc, hauthed.trans (congrArg Client.authed (Option.some.inj hc'))⟩
  · rw [Function.update_of_ne hcn] at hc'
    exact ⟨c', hc', rfl⟩

/-- Taking a request out of the tables. -/
theorem smaller_finish (s : Auth) (id : Nat) (request : Request) (status : Status) :
    Smaller s (finish s id request status) := by
  have hrequests (id' : Nat) (request' : Request)
      (h : Function.update s.requests id none id' = some request') :
      s.requests id' = some request' := (of_update_none h).2
  unfold finish
  dsimp only
  cases hc : s.clients request.cn with
  | none => exact { Smaller.refl s with requests := hrequests }
  | some c =>
    refine { Smaller.refl s with
      log := fun _ h => List.mem_append_left _ h
      answered := fun conn id h => ?_
      requests := hrequests
      authed := fun cn' c' domain userId hc' ha => ⟨?_, fun p hp _ => hp⟩ }
    · rcases List.mem_append.mp h with hold | hnew
      · exact hold
      · cases List.mem_singleton.mp hnew
    · obtain ⟨c'', hc'', heq⟩ := authed_update hc rfl hc'
      exact ⟨c'', hc'', heq ▸ ha⟩

theorem Smaller.trans {s'' : Auth} (h : Smaller s s') (h' : Smaller s' s'') : Smaller s s'' where
  log e he := h'.log e (h.log e he)
  answered conn id ha := h.answered conn id (h'.answered conn id ha)
  requests id request hr := h.requests id request (h'.requests id request hr)
  remotes := h'.remotes.trans h.remotes
  deferred d hd := h.deferred d (h'.deferred d hd)
  connections := h'.connections.trans h.connections
  next := h'.next.trans h.next
  peers cn p'' hp'' := by
    obtain ⟨p', hp', heq'⟩ := h'.peers cn p'' hp''
    obtain ⟨p, hp, heq⟩ := h.peers cn p' hp'
    exact ⟨p, hp, heq.trans heq'⟩
  authed cn c'' domain userId hc'' ha := by
    obtain ⟨⟨c', hc', ha'⟩, hpeer'⟩ := h'.authed cn c'' domain userId hc'' ha
    obtain ⟨hold, hpeer⟩ := h.authed cn c' domain userId hc' ha'
    exact ⟨hold, fun p hp hjoined => hpeer' p (hpeer p hp hjoined) hjoined⟩

/-- A client that has joined stays; one that has not is disconnected. -/
theorem smaller_joinOrReject (hp : s.peers cn = some p) (hstatus : status ≠ .SUCCESS) :
    Smaller s (joinOrReject s cn p status) := by
  unfold joinOrReject
  by_cases hjoined : p.joined = true
  · rw [if_pos hjoined]
    exact Smaller.refl s
  · rw [if_neg hjoined, if_neg hstatus]
    refine { Smaller.refl s with
      peers := fun cn' p' hp' => ⟨p', (of_update_none hp').2, rfl⟩
      authed := fun cn' c' domain userId hc' ha => ⟨⟨c', hc', ha⟩, fun p' hp' hjoined' => ?_⟩ }
    by_cases hcn : cn' = cn
    · subst hcn
      cases Option.some.inj (hp.symm.trans hp')
      exact absurd hjoined' hjoined
    · exact (Function.update_of_ne hcn ..).trans hp'

theorem smaller_faulted (s : Auth) : Smaller s { s with faulted := true } :=
  { Smaller.refl s with }

/-- A request that does not succeed authenticates nobody. -/
theorem smaller_completeRequest (s : Auth) (id : Nat) (request : Request) (status : Status)
    (hstatus : status ≠ .SUCCESS) : Smaller s (completeRequest s id request status) := by
  rw [completeRequest, if_neg hstatus, settle]
  split
  · exact smaller_faulted s
  · rename_i p hp
    exact (smaller_joinOrReject hp hstatus).trans (smaller_finish _ id request status)

/-- The owner of a request that succeeds has joined the game, and is authenticated. -/
theorem Kept.succeed (h : Kept s) (hc : s.clients request.cn = some c)
    (hp : s.peers request.cn = some p)
    (hearned : Earned s p.conn request.userId request.domain) :
    Kept (joinOrReject (authenticate s request c) request.cn p .SUCCESS) := by
  have hjoin : joinOrReject (authenticate s request c) request.cn p .SUCCESS =
      { authenticate s request c with
        peers := Function.update s.peers request.cn (some { p with joined := true }) } := by
    unfold joinOrReject
    split
    · rename_i hjoined
      have hsame :
          Function.update s.peers request.cn (some { p with joined := true }) = s.peers := by
        rw [← hjoined]
        exact (congrArg (Function.update s.peers request.cn) hp.symm).trans
          (Function.update_eq_self ..)
      rw [hsame]
      rfl
    · rw [if_pos rfl]
      rfl
  have hpeer {cn : Nat} {p' : Peer}
      (hp' : Function.update s.peers request.cn (some { p with joined := true }) cn = some p') :
      ∃ p₀, s.peers cn = some p₀ ∧ p₀.conn = p'.conn := by
    by_cases hcn : cn = request.cn
    · subst hcn
      rw [Function.update_self] at hp'
      refine ⟨p, hp, ?_⟩
      rw [← Option.some.inj hp']
    · rw [Function.update_of_ne hcn] at hp'
      exact ⟨p', hp', rfl⟩
  have howned {request' : Request} (ho : ∃ p', Function.update s.peers request.cn
      (some { p with joined := true }) request'.cn = some p' ∧ p'.conn = request'.conn) :
      Owned s request' := by
    obtain ⟨p', hp', hconn⟩ := ho
    obtain ⟨p₀, hp₀, heq⟩ := hpeer hp'
    exact ⟨p₀, hp₀, heq.trans hconn⟩
  rw [hjoin]
  refine
    { h with
      peers := ?_
      made := fun id request' hr hk => ?_
      remote_made := fun id r hr => ?_
      challenged := fun id r hr hch ho => h.challenged id r hr hch (howned ho)
      authed := ?_ }
  · intro cn p' hp'
    obtain ⟨p₀, hp₀, heq⟩ := hpeer hp'
    exact heq ▸ h.peers cn p₀ hp₀
  · obtain ⟨hasked, hcreated, hconn, hid⟩ := h.made id request' hr hk
    exact ⟨hasked, hcreated, hconn, hid⟩
  · obtain ⟨hasked, hcreated, hconn, hid⟩ := h.remote_made id r hr
    exact ⟨hasked, hcreated, hconn, hid⟩
  · intro cn c' domain userId hc' ha
    by_cases hcn : cn = request.cn
    · subst hcn
      refine ⟨{ p with joined := true }, Function.update_self .., rfl, ?_⟩
      change Function.update s.clients request.cn _ request.cn = some c' at hc'
      rw [Function.update_self] at hc'
      rw [← Option.some.inj hc'] at ha
      dsimp only at ha
      by_cases hdomain : domain = request.domain
      · subst hdomain
        rw [Function.update_self] at ha
        rw [← Option.some.inj ha]
        exact hearned
      · rw [Function.update_of_ne hdomain] at ha
        obtain ⟨p', hp', -, hold⟩ := h.authed request.cn c domain userId hc ha
        cases Option.some.inj (hp.symm.trans hp')
        exact hold
    · have hother : s.clients cn = some c' := (Function.update_of_ne hcn ..).symm.trans hc'
      obtain ⟨p', hp', hjoined, hold⟩ := h.authed cn c' domain userId hother ha
      exact ⟨p', (Function.update_of_ne hcn ..).trans hp', hjoined, hold⟩

/-- A request that succeeds for its owner. -/
theorem Kept.complete_success (h : Kept s) (howned : Owned s request)
    (hearned : Earned s request.conn request.userId request.domain) :
    Kept (completeRequest s id request .SUCCESS) := by
  obtain ⟨p, hp, hconn⟩ := howned
  rw [completeRequest, if_pos rfl]
  split
  · exact h.smaller (smaller_faulted s)
  · rename_i c hc
    have hpeer : (AuthCore.authenticate s request c).peers request.cn = some p := hp
    rw [settle, hpeer]
    exact (h.succeed hc hp (hconn ▸ hearned)).smaller (smaller_finish _ id request _)

/-! ## A request is created -/

/-- What no client has asked for yet cannot have been answered. -/
theorem Kept.not_answered (h : Kept s) (conn : Nat) :
    Entry.answered conn s.nextRequestId ∉ s.log := fun ha =>
  Nat.lt_irrefl _ (h.fresh conn _ ha)

theorem Made.of_log (h : Made s id request) (hlog : ∀ e ∈ s.log, e ∈ s'.log)
    (hconn : s'.connections = s.connections) (hnext : s.nextRequestId ≤ s'.nextRequestId) :
    Made s' id request :=
  ⟨hlog _ h.asked, hlog _ h.created, hconn ▸ h.conn, Nat.lt_of_lt_of_le h.id_lt hnext⟩

/-- A state with one request more, under the next id. -/
structure Grown (s s' : Auth) (request : Request) : Prop where
  log : ∀ e ∈ s.log, e ∈ s'.log
  answered : ∀ conn id, Entry.answered conn id ∈ s'.log → Entry.answered conn id ∈ s.log
  requests : s'.requests = Function.update s.requests s.nextRequestId (some request)
  clients : ∀ cn c', s'.clients cn = some c' → ∃ c, s.clients cn = some c ∧ c.authed = c'.authed
  remotes : ∀ id r, s'.remotes id = some r → s.remotes id = some r ∨
    (id = s.nextRequestId ∧ r = ⟨request, false, false, .start⟩ ∧ request.kind ≠ .neither)
  remotes_old : ∀ id, id ≠ s.nextRequestId → s'.remotes id = s.remotes id
  peers : s'.peers = s.peers
  connections : s'.connections = s.connections
  deferred : s'.deferred = s.deferred
  next : s.nextRequestId ≤ s'.nextRequestId
  made : request.kind ≠ .neither → Made s' s.nextRequestId request
  issued : request.kind = .localRequest → Entry.issued request.conn s.nextRequestId ∈ s'.log
  remote : request.kind = .remoteRequest →
    ∃ r, s'.remotes s.nextRequestId = some r ∧ r.request = request

theorem Kept.grown (h : Kept s) (request : Request) (hg : Grown s s' request) : Kept s' := by
  have hrequest {id : Nat} {request' : Request} (hr : s'.requests id = some request') :
      (id = s.nextRequestId ∧ request' = request) ∨
        (id ≠ s.nextRequestId ∧ s.requests id = some request') := by
    rw [hg.requests] at hr
    exact of_update_some hr
  constructor
  · intro cn p hp
    rw [hg.connections]
    exact h.peers cn p (hg.peers ▸ hp)
  · intro id request' hr hkind
    rcases hrequest hr with ⟨rfl, rfl⟩ | ⟨-, hold⟩
    · exact hg.made hkind
    · exact (h.made id request' hold hkind).of_log hg.log hg.connections hg.next
  · intro id request' hr hkind
    rcases hrequest hr with ⟨rfl, rfl⟩ | ⟨-, hold⟩
    · exact hg.issued hkind
    · exact hg.log _ (h.issued id request' hold hkind)
  · intro id request' hr hkind
    rcases hrequest hr with ⟨rfl, rfl⟩ | ⟨hne, hold⟩
    · exact hg.remote hkind
    · rw [hg.remotes_old id hne]
      exact h.remote id request' hold hkind
  · intro id r hr
    rcases hg.remotes id r hr with hold | ⟨rfl, rfl, hkind⟩
    · exact (h.remote_made id r hold).of_log hg.log hg.connections hg.next
    · exact hg.made hkind
  · intro id r hr hch howned
    rcases hg.remotes id r hr with hold | ⟨rfl, rfl, -⟩
    · refine hg.log _ (h.challenged id r hold hch ?_)
      rwa [Owned, hg.peers] at howned
    · cases hch
  · intro id r hr hanswer
    rcases hg.remotes id r hr with hold | ⟨rfl, rfl, -⟩
    · exact h.handler id r hold hanswer
    · cases hanswer
  · intro id r conn' hr ha
    rcases hg.remotes id r hr with hold | ⟨rfl, rfl, -⟩
    · exact h.answers id r conn' hold (hg.answered conn' id ha)
    · exact absurd (hg.answered conn' _ ha) (h.not_answered conn')
  · intro conn' id ha
    exact Nat.lt_of_lt_of_le (h.fresh conn' id (hg.answered conn' id ha)) hg.next
  · intro d hd
    rw [hg.deferred] at hd
    obtain ⟨hasked, hconn⟩ := h.deferred d hd
    exact ⟨hg.log _ hasked, hg.connections ▸ hconn⟩
  · intro cn c' domain userId hc' ha
    obtain ⟨c, hc, heq⟩ := hg.clients cn c' hc'
    obtain ⟨p, hp, hjoined, hearned⟩ := h.authed cn c domain userId hc (heq ▸ ha)
    exact ⟨p, hg.peers ▸ hp, hjoined, hearned.mono hg.log⟩

/-- Entries that are no answers are added to the record. -/
theorem answered_of_append {es : List Entry} (hes : ∀ conn id, Entry.answered conn id ∉ es)
    (conn id : Nat) (h : Entry.answered conn id ∈ s.log ++ es) :
    Entry.answered conn id ∈ s.log :=
  (List.mem_append.mp h).resolve_right (hes conn id)

/-- Without the state of the client, the request object is of no use. -/
theorem Kept.create_none (h : Kept s) (hc : s.clients cn = none) (kind : Kind) :
    Kept (createRequest s conn cn userId domain kind) := by
  rw [createRequest, hc]
  refine h.grown ⟨userId, cn, domain, .neither, conn⟩ ?_
  exact
    { log := fun _ he => he
      answered := fun _ _ ha => ha
      requests := rfl
      clients := fun cn c hc => ⟨c, hc, rfl⟩
      remotes := fun id r hr => .inl hr
      remotes_old := fun _ _ => rfl
      peers := rfl
      connections := rfl
      deferred := rfl
      next := Nat.le_refl _
      made := fun hkind => absurd rfl hkind
      issued := nofun
      remote := nofun }

theorem Kept.sendRequest (h : Kept s) (hasked : Entry.asked conn userId domain ∈ s.log)
    (hconn : conn < s.connections) : Kept (sendRequest s conn cn userId domain) := by
  rw [AuthCore.sendRequest]
  cases hc : s.clients cn with
  | none => exact h.create_none hc _
  | some c =>
    dsimp only
    rw [createRequest, hc]
    refine h.grown ⟨userId, cn, domain, .remoteRequest, conn⟩ ?_
    refine
      { log := fun _ he => List.mem_append_left _ he
        answered := answered_of_append fun conn id => by simp
        requests := rfl
        clients := fun cn' c' hc' => authed_update hc rfl hc'
        remotes := fun id r hr => ?_
        remotes_old := fun id hid => Function.update_of_ne hid ..
        peers := rfl
        connections := rfl
        deferred := rfl
        next := Nat.le_succ _
        made := fun _ => ⟨List.mem_append_left _ hasked,
          List.mem_append_right _ List.mem_cons_self, hconn, Nat.lt_succ_self _⟩
        issued := nofun
        remote := fun _ => ⟨_, Function.update_self .., rfl⟩ }
    rcases of_update_some hr with ⟨rfl, rfl⟩ | ⟨-, hold⟩
    · exact .inr ⟨rfl, rfl, nofun⟩
    · exact .inl hold

/-- A local request is sent its challenge at once. -/
theorem Kept.create_local (h : Kept s) (hasked : Entry.asked p.conn userId domain ∈ s.log)
    (hp : s.peers cn = some p) :
    Kept (sendChallenge (createRequest s p.conn cn userId domain .localRequest) cn
      s.nextRequestId) := by
  have hchallenge {s' : Auth} (hpeers : s'.peers = s.peers) :
      sendChallenge s' cn s.nextRequestId = s'.write (.issued p.conn s.nextRequestId) := by
    rw [sendChallenge, hpeers, hp]
  cases hc : s.clients cn with
  | none =>
    have hcreate : Kept (createRequest s p.conn cn userId domain .localRequest) :=
      h.create_none hc .localRequest
    have hpeers : (createRequest s p.conn cn userId domain .localRequest).peers = s.peers := by
      rw [createRequest, hc]
    rw [hchallenge hpeers]
    exact hcreate.smaller (Smaller.write nofun)
  | some c =>
    have hpeers : (createRequest s p.conn cn userId domain .localRequest).peers = s.peers := by
      rw [createRequest, hc]
    rw [hchallenge hpeers, createRequest, hc, Auth.write]
    refine h.grown ⟨userId, cn, domain, .localRequest, p.conn⟩ ?_
    exact
      { log := fun _ he => List.mem_append_left _ (List.mem_append_left _ he)
        answered := fun conn id ha => by
          rcases List.mem_append.mp ha with hold | hnew
          · exact answered_of_append (fun conn id => by simp) conn id hold
          · cases List.mem_singleton.mp hnew
        requests := rfl
        clients := fun cn' c' hc' => authed_update hc rfl hc'
        remotes := fun id r hr => .inl hr
        remotes_old := fun _ _ => rfl
        peers := rfl
        connections := rfl
        deferred := rfl
        next := Nat.le_succ _
        made := fun _ => ⟨List.mem_append_left _ (List.mem_append_left _ hasked),
          List.mem_append_left _ (List.mem_append_right _ List.mem_cons_self), h.peers cn p hp,
          Nat.lt_succ_self _⟩
        issued := fun _ => List.mem_append_right _ List.mem_cons_self
        remote := nofun }

theorem smaller_init (s : Auth) (cn : Nat) : Smaller s (initClientState s cn) := by
  unfold initClientState
  split
  · exact Smaller.refl s
  · refine { Smaller.refl s with
      authed := fun cn' c' domain userId hc' ha => ⟨⟨c', ?_, ha⟩, fun _ hp _ => hp⟩ }
    by_cases hcn : cn' = cn
    · subst hcn
      change Function.update s.clients cn' _ cn' = some c' at hc'
      rw [Function.update_self] at hc'
      rw [← Option.some.inj hc'] at ha
      cases ha
    · exact (Function.update_of_ne hcn ..).symm.trans hc'

theorem peers_init (s : Auth) (cn : Nat) : (initClientState s cn).peers = s.peers := by
  unfold initClientState
  split <;> rfl

/-- A request that has been asked for can wait. -/
theorem Kept.defer (h : Kept s) (d : Deferred)
    (hasked : Entry.asked d.conn d.userId d.domain ∈ s.log) (hconn : d.conn < s.connections) :
    Kept { s with deferred := s.deferred ++ [d] } :=
  { h with
    made := fun id request hr hk =>
      (h.made id request hr hk).of_log (fun _ he => he) rfl (Nat.le_refl _)
    remote_made := fun id r hr =>
      (h.remote_made id r hr).of_log (fun _ he => he) rfl (Nat.le_refl _)
    deferred := fun d' hd' => by
      rcases List.mem_append.mp hd' with hold | hnew
      · exact h.deferred d' hold
      · rw [List.mem_singleton.mp hnew]
        exact ⟨hasked, hconn⟩ }

theorem Kept.startAuthChallenge (h : Kept s) (cn : Nat) (userId domain : String)
    (route : Route) : Kept (startAuthChallenge s cn userId domain route) := by
  rw [AuthCore.startAuthChallenge]
  cases hp : s.peers cn with
  | none => exact h
  | some p =>
    have hasked : Kept ((initClientState s cn).write (.asked p.conn userId domain)) :=
      (h.smaller (smaller_init s cn)).smaller (Smaller.write nofun)
    have hpeers :
        ((initClientState s cn).write (.asked p.conn userId domain)).peers cn = some p :=
      (congrFun (peers_init s cn) cn).trans hp
    have hmem : Entry.asked p.conn userId domain ∈
        ((initClientState s cn).write (.asked p.conn userId domain)).log :=
      List.mem_append_right _ List.mem_cons_self
    dsimp only
    split
    · exact hasked
    · cases route with
      | unknownDomain => exact hasked
      | unknownUser => exact hasked
      | localKey => exact hasked.create_local hmem hpeers
      | connected => exact hasked.sendRequest hmem (hasked.peers cn p hpeers)
      | notConnected =>
        exact hasked.defer ⟨p.conn, cn, userId, domain⟩ hmem (hasked.peers cn p hpeers)

theorem Kept.connected (h : Kept s) (k : Nat) (error_message : Bool) :
    Kept (connected s k error_message) := by
  rw [AuthCore.connected]
  cases hd : s.deferred[k]? with
  | none => exact h
  | some d =>
    obtain ⟨hasked, hconn⟩ := h.deferred d (List.mem_of_getElem? hd)
    have hless : Kept { s with deferred := s.deferred.eraseIdx k } := h.smaller
      { Smaller.refl s with deferred := fun d' hd' => List.mem_of_mem_eraseIdx hd' }
    dsimp only
    split
    · exact hless
    · exact hless.sendRequest hasked hconn

/-! ## Answers and replies -/

/-- A request to an auth server changes, but not the request object that it is for. -/
theorem Kept.update_remote (h : Kept s) (r' : Remote) (hr : s.remotes id = some r)
    (hsame : r'.request = r.request)
    (hhandler : r'.completionHandler = .answer → r'.challenged = true)
    (hissued : r'.challenged = true → Owned s r.request →
      Entry.issued r.request.conn id ∈ s.log) :
    Kept { s with remotes := Function.update s.remotes id (some r') } := by
  have hremote {id' : Nat} {r'' : Remote}
      (hr'' : Function.update s.remotes id (some r') id' = some r'') :
      (id' = id ∧ r'' = r') ∨ s.remotes id' = some r'' :=
    (of_update_some hr'').imp_right And.right
  refine
    { h with
      made := fun id' request hq hk =>
        (h.made id' request hq hk).of_log (fun _ he => he) rfl (Nat.le_refl _)
      remote := fun id' request hq hk => ?_
      remote_made := fun id' r'' hr'' => ?_
      challenged := fun id' r'' hr'' hch ho => ?_
      handler := fun id' r'' hr'' ha => ?_
      answers := fun id' r'' conn hr'' ha => ?_ }
  · obtain ⟨r₀, hr₀, heq⟩ := h.remote id' request hq hk
    by_cases hid : id' = id
    · subst hid
      cases Option.some.inj (hr.symm.trans hr₀)
      exact ⟨r', Function.update_self .., hsame.trans heq⟩
    · exact ⟨r₀, (Function.update_of_ne hid ..).trans hr₀, heq⟩
  · rcases hremote hr'' with ⟨rfl, rfl⟩ | hold
    · rw [hsame]
      exact (h.remote_made id' r hr).of_log (fun _ he => he) rfl (Nat.le_refl _)
    · exact (h.remote_made id' r'' hold).of_log (fun _ he => he) rfl (Nat.le_refl _)
  · rcases hremote hr'' with ⟨rfl, rfl⟩ | hold
    · rw [hsame] at ho ⊢
      exact hissued hch ho
    · exact h.challenged id' r'' hold hch ho
  · rcases hremote hr'' with ⟨rfl, rfl⟩ | hold
    · exact hhandler ha
    · exact h.handler id' r'' hold ha
  · rcases hremote hr'' with ⟨rfl, rfl⟩ | hold
    · rw [hsame]
      exact h.answers id' r conn hr ha
    · exact h.answers id' r'' conn hold ha

theorem Kept.sendChallenge (h : Kept s) (cn id : Nat) : Kept (sendChallenge s cn id) := by
  rw [AuthCore.sendChallenge]
  split
  · exact h
  · exact h.smaller (Smaller.write nofun)

/-- The request to an auth server has completed. -/
theorem Kept.completed (h : Kept s) (hr : s.remotes id = some r) :
    Kept { s with remotes := Function.update s.remotes id (some { r with completed := true }) } :=
  h.update_remote { r with completed := true } hr rfl (h.handler id r hr) (h.challenged id r hr)

/-- A failure authenticates nobody. -/
theorem Kept.finishRemote_false (h : Kept s) (hr : s.remotes id = some r) :
    Kept (finishRemote s id r false) := by
  rcases r with ⟨request, challenged, completed, _ | _⟩
  · exact (h.completed hr).smaller (smaller_completeRequest _ id request .CHALLENGE_FAILED nofun)
  · exact (h.completed hr).smaller (smaller_completeRequest _ id request .RESPONSE_FAILED nofun)

/-- The reply of success to an answer of the owner. -/
theorem Kept.finishRemote_true (h : Kept s) (hr : s.remotes id = some r)
    (howned : Owned s r.request) (hch : r.challenged = true)
    (haccepted : Entry.accepted r.request.conn id ∈ s.log) :
    Kept (finishRemote s id r true) := by
  have hmade := h.remote_made id r hr
  rcases r with ⟨request, challenged, completed, _ | _⟩
  · exact (h.completed hr).sendChallenge request.cn id
  · obtain ⟨hasked, hcreated, -⟩ := hmade
    exact (h.completed hr).complete_success howned
      ⟨hasked, id, hcreated, h.challenged id _ hr hch howned, haccepted⟩

theorem Kept.processReply (h : Kept s) (hr : s.remotes id = some r) {reply : Reply}
    (hfair : Fair s (.reply id reply)) : Kept (processReply s id r reply) := by
  unfold AuthCore.processReply
  split
  · exact h
  · rename_i hcompleted
    cases reply with
    | chalauth =>
      dsimp only
      split
      · exact h.finishRemote_false hr
      · rename_i hch
        have hstart : r.completionHandler = .start := by
          cases hhandler : r.completionHandler with
          | start => rfl
          | answer => exact absurd (h.handler id r hr hhandler) hch
        have hstate : completionHandler
            { s with remotes := Function.update s.remotes id (some { r with challenged := true }) }
            id { r with challenged := true } true =
            { AuthCore.sendChallenge s r.request.cn id with
              remotes := Function.update (AuthCore.sendChallenge s r.request.cn id).remotes id
                (some { r with challenged := true }) } := by
          unfold completionHandler AuthCore.sendChallenge
          dsimp only
          rw [hstart]
          dsimp only
          cases s.peers r.request.cn <;> rfl
        have hremotes : (AuthCore.sendChallenge s r.request.cn id).remotes id = some r := by
          unfold AuthCore.sendChallenge
          split <;> exact hr
        rw [hstate]
        refine (h.sendChallenge r.request.cn id).update_remote _ hremotes rfl (fun _ => rfl) ?_
        rintro - ⟨p, hp, hconn⟩
        have hpeer : s.peers r.request.cn = some p := by
          unfold AuthCore.sendChallenge at hp
          split at hp <;> exact hp
        rw [AuthCore.sendChallenge, hpeer, ← hconn]
        exact List.mem_append_right _ List.mem_cons_self
    | failauth => exact h.finishRemote_false hr
    | succauth conn =>
      dsimp only
      split
      · rename_i hch
        obtain ⟨hanswered, howned⟩ := hfair r hr (Bool.eq_false_iff.mpr hcompleted) hch
        have hconn : conn = r.request.conn := h.answers id r conn hr hanswered
        have hwrite : Kept (s.write (.accepted conn id)) := h.smaller (Smaller.write nofun)
        refine hwrite.finishRemote_true hr howned hch ?_
        rw [hconn]
        exact List.mem_append_right _ List.mem_cons_self
      · exact h.finishRemote_false hr

/-- An answer of the owner of a request is recorded. -/
theorem Kept.write_answered (h : Kept s) (hid : id < s.nextRequestId)
    (hconn : ∀ r, s.remotes id = some r → conn = r.request.conn) :
    Kept (s.write (.answered conn id)) := by
  have hanswered {conn' id' : Nat} (ha : Entry.answered conn' id' ∈ s.log ++ [.answered conn id]) :
      Entry.answered conn' id' ∈ s.log ∨ (conn' = conn ∧ id' = id) := by
    rcases List.mem_append.mp ha with hold | hnew
    · exact .inl hold
    · cases List.mem_singleton.mp hnew
      exact .inr ⟨rfl, rfl⟩
  have hlog : ∀ e ∈ s.log, e ∈ (s.write (.answered conn id)).log := fun _ he =>
    List.mem_append_left _ he
  refine
    { h with
      made := fun id' request hr hk => (h.made id' request hr hk).of_log hlog rfl (Nat.le_refl _)
      issued := fun id' request hr hk => hlog _ (h.issued id' request hr hk)
      remote_made := fun id' r hr => (h.remote_made id' r hr).of_log hlog rfl (Nat.le_refl _)
      challenged := fun id' r hr hch ho => hlog _ (h.challenged id' r hr hch ho)
      answers := fun id' r conn' hr ha => ?_
      fresh := fun conn' id' ha => ?_
      deferred := fun d hd => ⟨hlog _ (h.deferred d hd).1, (h.deferred d hd).2⟩
      authed := fun cn c domain userId hc ha => ?_ }
  · rcases hanswered ha with hold | ⟨rfl, rfl⟩
    · exact h.answers id' r conn' hr hold
    · exact hconn r hr
  · rcases hanswered ha with hold | ⟨rfl, rfl⟩
    · exact h.fresh conn' id' hold
    · exact hid
  · obtain ⟨p, hp, hjoined, hearned⟩ := h.authed cn c domain userId hc ha
    exact ⟨p, hp, hjoined, hearned.mono hlog⟩

theorem Kept.authChallengeResponse (h : Kept s) {correct : Bool}
    (hfair : Fair s (.authChallengeResponse cn id correct)) :
    Kept (authChallengeResponse s cn id correct) := by
  rw [AuthCore.authChallengeResponse]
  split
  · rename_i p request hp hq
    split
    · rename_i hkind
      obtain ⟨hcn, ⟨p', hp', hconn⟩, hch⟩ := hfair request hq (by rw [hkind]; nofun)
      cases Option.some.inj (hp.symm.trans (hcn ▸ hp'))
      obtain ⟨r, hr, hrequest⟩ := h.remote id request hq hkind
      rw [hr]
      have hupdate := h.update_remote ⟨r.request, r.challenged, r.completed, .answer⟩ hr rfl
        (fun _ => hch r hr hkind) (h.challenged id r hr)
      refine hupdate.write_answered (h.remote_made id r hr).id_lt fun r' hr' => ?_
      change Function.update s.remotes id _ id = some r' at hr'
      rw [Function.update_self] at hr'
      rw [hconn, ← hrequest, ← Option.some.inj hr']
    · rename_i hkind
      obtain ⟨hcn, howned, -⟩ := hfair request hq (by rw [hkind]; nofun)
      obtain ⟨p', hp', hconn⟩ := howned
      cases Option.some.inj (hp.symm.trans (hcn ▸ hp'))
      split
      · obtain ⟨hasked, hcreated, -⟩ := h.made id request hq (by rw [hkind]; nofun)
        have hwrite : Kept (s.write (.accepted p.conn id)) := h.smaller (Smaller.write nofun)
        refine hwrite.complete_success ⟨p, hp', hconn⟩ ⟨List.mem_append_left _ hasked, id,
          List.mem_append_left _ hcreated,
          List.mem_append_left _ (h.issued id request hq hkind), ?_⟩
        rw [← hconn]
        exact List.mem_append_right _ List.mem_cons_self
      · exact h.smaller (smaller_completeRequest s id request .RESPONSE_FAILED nofun)
    · exact h
  · exact h

theorem Kept.timer (h : Kept s) (id : Nat) : Kept (timer s id) := by
  unfold AuthCore.timer
  split
  · have hfired : Kept { s with timers := Function.update s.timers id false } :=
      h.smaller { Smaller.refl s with }
    dsimp only
    split
    · exact hfired
    · exact hfired.smaller (smaller_completeRequest _ id _ .TIMEOUT nofun)
  · exact h

/-! ## Clients come and go -/

/-- A connection that is new owns no request. -/
theorem Kept.arrive (h : Kept s) (cn : Nat) : Kept (arrive s cn) := by
  unfold AuthCore.arrive
  split
  · exact h
  · rename_i hfree
    have hpeer {cn' : Nat} {p : Peer}
        (hp : Function.update s.peers cn (some ⟨s.connections, false⟩) cn' = some p) :
        p.conn = s.connections ∨ s.peers cn' = some p := by
      by_cases hcn : cn' = cn
      · subst hcn
        rw [Function.update_self] at hp
        exact .inl (congrArg Peer.conn (Option.some.inj hp)).symm
      · exact .inr ((Function.update_of_ne hcn ..).symm.trans hp)
    have hmade {id : Nat} {request : Request} (hm : Made s id request) {s' : Auth}
        (hlog : s'.log = s.log) (hconn : s'.connections = s.connections + 1)
        (hnext : s'.nextRequestId = s.nextRequestId) : Made s' id request :=
      ⟨hlog ▸ hm.asked, hlog ▸ hm.created, hconn ▸ Nat.lt_succ_of_lt hm.conn, hnext ▸ hm.id_lt⟩
    refine
      { h with
        peers := fun cn' p hp => ?_
        made := fun id request hr hk => hmade (h.made id request hr hk) rfl rfl rfl
        remote_made := fun id r hr => hmade (h.remote_made id r hr) rfl rfl rfl
        challenged := fun id r hr hch ho => ?_
        deferred := fun d hd => ⟨(h.deferred d hd).1, Nat.lt_succ_of_lt (h.deferred d hd).2⟩
        authed := fun cn' c domain userId hc ha => ?_ }
    · rcases hpeer hp with heq | hold
      · exact heq ▸ Nat.lt_succ_self _
      · exact Nat.lt_succ_of_lt (h.peers cn' p hold)
    · obtain ⟨p, hp, hconn⟩ := ho
      rcases hpeer hp with heq | hold
      · exact absurd (hconn.symm.trans heq) (Nat.ne_of_lt (h.remote_made id r hr).conn)
      · exact h.challenged id r hr hch ⟨p, hold, hconn⟩
    · obtain ⟨p, hp, hjoined, hearned⟩ := h.authed cn' c domain userId hc ha
      have hcn : cn' ≠ cn := by
        rintro rfl
        rw [hfree] at hp
        cases hp
      exact ⟨p, (Function.update_of_ne hcn ..).trans hp, hjoined, hearned⟩

/-- A client that joins keeps its connection. -/
theorem Kept.join (h : Kept s) (cn : Nat) : Kept (join s cn) := by
  unfold AuthCore.join
  split
  · exact h
  · rename_i p hp
    refine Kept.smaller ?_ (smaller_init _ cn)
    have hpeer {cn' : Nat} {p' : Peer}
        (hp' : Function.update s.peers cn (some { p with joined := true }) cn' = some p') :
        ∃ p₀, s.peers cn' = some p₀ ∧ p₀.conn = p'.conn := by
      by_cases hcn : cn' = cn
      · subst hcn
        rw [Function.update_self] at hp'
        refine ⟨p, hp, ?_⟩
        rw [← Option.some.inj hp']
      · exact ⟨p', (Function.update_of_ne hcn ..).symm.trans hp', rfl⟩
    refine
      { h with
        peers := fun cn' p' hp' => ?_
        made := fun id request hr hk =>
          (h.made id request hr hk).of_log (fun _ he => he) rfl (Nat.le_refl _)
        remote_made := fun id r hr =>
          (h.remote_made id r hr).of_log (fun _ he => he) rfl (Nat.le_refl _)
        challenged := fun id r hr hch ho => ?_
        authed := fun cn' c domain userId hc ha => ?_ }
    · obtain ⟨p₀, hp₀, heq⟩ := hpeer hp'
      exact heq ▸ h.peers cn' p₀ hp₀
    · obtain ⟨p', hp', hconn⟩ := ho
      obtain ⟨p₀, hp₀, heq⟩ := hpeer hp'
      exact h.challenged id r hr hch ⟨p₀, hp₀, heq.trans hconn⟩
    · obtain ⟨p', hp', hjoined, hearned⟩ := h.authed cn' c domain userId hc ha
      by_cases hcn : cn' = cn
      · subst hcn
        cases Option.some.inj (hp.symm.trans hp')
        exact ⟨_, Function.update_self .., rfl, hearned⟩
      · exact ⟨p', (Function.update_of_ne hcn ..).trans hp', hjoined, hearned⟩

theorem smaller_cancelLoop (fuel i cn : Nat) (s : Auth) : Smaller s (cancelLoop fuel i cn s) := by
  induction fuel generalizing i s with
  | zero => exact Smaller.refl s
  | succ fuel ih =>
    rw [cancelLoop]
    split
    · exact Smaller.refl s
    · exact (smaller_completeRequest s i _ .CANCELLED nofun).trans (ih (i + 1) _)

/-- After the event `disconnect` there is no state of the client. -/
theorem Kept.disconnect (h : Kept s) (cn : Nat) :
    Kept (disconnect s cn) ∧ (disconnect s cn).clients cn = none := by
  unfold AuthCore.disconnect
  split
  · rename_i hc
    exact ⟨h, hc⟩
  · refine ⟨(h.smaller (smaller_cancelLoop s.nextRequestId 1 cn s)).smaller ?_,
      Function.update_self ..⟩
    refine { Smaller.refl _ with
      authed := fun cn' c' domain userId hc' ha => ⟨⟨c', (of_update_none hc').2, ha⟩, ?_⟩ }
    exact fun p hp _ => hp

/-- A connection under whose number nobody is authenticated ends. -/
theorem Kept.remove_peer (h : Kept s)
    (hnone : ∀ c domain userId, s.clients cn = some c → c.authed domain ≠ some userId) :
    Kept { s with peers := Function.update s.peers cn none } := by
  refine
    { h with
      peers := fun cn' p hp => h.peers cn' p (of_update_none hp).2
      made := fun id request hr hk =>
        (h.made id request hr hk).of_log (fun _ he => he) rfl (Nat.le_refl _)
      remote_made := fun id r hr =>
        (h.remote_made id r hr).of_log (fun _ he => he) rfl (Nat.le_refl _)
      challenged := fun id r hr hch ho => ?_
      authed := fun cn' c domain userId hc ha => ?_ }
  · obtain ⟨p, hp, hconn⟩ := ho
    exact h.challenged id r hr hch ⟨p, (of_update_none hp).2, hconn⟩
  · obtain ⟨p, hp, hjoined, hearned⟩ := h.authed cn' c domain userId hc ha
    have hcn : cn' ≠ cn := by
      rintro rfl
      exact hnone c domain userId hc ha
    exact ⟨p, (Function.update_of_ne hcn ..).trans hp, hjoined, hearned⟩

theorem Kept.leave (h : Kept s) (cn : Nat) : Kept (leave s cn) := by
  unfold AuthCore.leave
  split
  · exact h
  · rename_i p hp
    dsimp only
    by_cases hjoined : p.joined = true
    · rw [if_pos hjoined]
      obtain ⟨hkept, hnone⟩ := h.disconnect cn
      refine hkept.remove_peer fun c domain userId hc => ?_
      rw [hnone] at hc
      cases hc
    · rw [if_neg hjoined]
      refine h.remove_peer fun c domain userId hc ha => ?_
      obtain ⟨p', hp', hjoined', -⟩ := h.authed cn c domain userId hc ha
      cases Option.some.inj (hp.symm.trans hp')
      exact hjoined hjoined'

/-! ## Every run -/

theorem kept_init : Kept Auth.init where
  peers _ _ := nofun
  made _ _ := nofun
  issued _ _ := nofun
  remote _ _ := nofun
  remote_made _ _ := nofun
  challenged _ _ := nofun
  handler _ _ := nofun
  answers _ _ _ := nofun
  fresh _ _ h := absurd h List.not_mem_nil
  deferred _ h := absurd h List.not_mem_nil
  authed _ _ _ _ := nofun

theorem Kept.step (s : Auth) (a : Action) (hfair : Fair s a) (h : Kept s) : Kept (step s a) := by
  cases a with
  | arrive cn => exact h.arrive cn
  | join cn => exact h.join cn
  | leave cn => exact h.leave cn
  | requestAuthChallenge cn userId domain route =>
    exact h.startAuthChallenge cn userId domain route
  | connected k error_message => exact h.connected k error_message
  | authChallengeResponse cn id correct => exact h.authChallengeResponse hfair
  | reply id reply =>
    unfold AuthCore.step
    dsimp only
    split
    · exact h
    · exact h.processReply ‹_› hfair
  | sendFailed id =>
    unfold AuthCore.step
    dsimp only
    split
    · exact h
    · split
      · exact h
      · exact h.finishRemote_false ‹_›
  | readFailed id =>
    unfold AuthCore.step
    dsimp only
    split
    · exact h
    · exact h.finishRemote_false ‹_›
  | timer id => exact h.timer id

/-- In a run in which every request is answered by its owner, after its challenge, and succeeds
while its owner is there, whoever is authenticated has earned it, in every state. -/
theorem genuine_run (as : List Action) (hfair : Along Fair step Auth.init as) :
    ∀ bs cs, as = bs ++ cs → Genuine (Machine.run step Auth.init bs) := by
  rintro bs cs rfl
  exact ((along_append.mp hfair).1.inv Kept.step kept_init).genuine

/-- A client asks to be a user, and another one gives the answer. -/
def foreignAnswer : List Action :=
  [.arrive 0, .join 0, .arrive 1, .join 1, .requestAuthChallenge 0 "u" "d" .localKey,
    .authChallengeResponse 1 1 true]

/-- The one who asked is authenticated by the answer of the other. -/
theorem foreign_answer_accepted : ¬ Genuine (Machine.run step Auth.init foreignAnswer) := by
  intro h
  have hauthed :
      ((Machine.run step Auth.init foreignAnswer).clients 0).bind (·.authed "d") = some "u" := rfl
  have hpeer : (Machine.run step Auth.init foreignAnswer).peers 0 = some ⟨0, true⟩ := rfl
  have hlog : (Machine.run step Auth.init foreignAnswer).log = [.asked 0 "u" "d",
    .created 1 0 "u" "d", .issued 0 1, .accepted 1 1, .completed 1 .SUCCESS] := rfl
  obtain ⟨c, hc, ha⟩ := Option.bind_eq_some_iff.mp hauthed
  obtain ⟨p, hp, -, id, -, -, haccepted⟩ := h 0 c "d" "u" hc ha
  cases Option.some.inj (hpeer.symm.trans hp)
  rw [hlog] at haccepted
  simp at haccepted

/-- A client asks to be a user, and gives the answer. -/
def ownAnswer : List Action :=
  [.arrive 0, .join 0, .requestAuthChallenge 0 "u" "d" .localKey,
    .authChallengeResponse 0 1 true]

theorem genuine_run_own : Genuine (Machine.run step Auth.init ownAnswer) := by
  refine genuine_run ownAnswer ⟨trivial, trivial, trivial, fun request hr _ => ?_, trivial⟩
    ownAnswer [] rfl
  have hrequest : request = ⟨"u", 0, "d", .localRequest, 0⟩ := (Option.some.inj hr).symm
  subst hrequest
  exact ⟨rfl, ⟨⟨0, true⟩, rfl, rfl⟩, fun r _ hkind => nomatch hkind⟩

end AuthCore

end Zuckerserv
