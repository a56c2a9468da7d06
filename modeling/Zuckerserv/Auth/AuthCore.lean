import Mathlib.Logic.Function.Basic
import Zuckerserv.Lib.Machine

/-!
# Requests for authentication

The game server keeps the requests of its clients under an id, and the state of each client under
its number. A request is completed by an answer, by a reply of an auth server, by a timer, by a
failure, or when its client leaves.

* `completeRequest`, `createRequest` — a request is completed, and created.
* `startAuthChallenge`, `authChallengeResponse`, `disconnect` — what clients do.
* `step` — any of the things that happen.
-/

namespace Zuckerserv

namespace AuthCore

/-! ## The state -/

/-- `auth.request_status`. -/
inductive Status
  | SUCCESS
  | REQUEST_FAILED
  | CHALLENGE_FAILED
  | RESPONSE_FAILED
  | CANCELLED
  | TIMEOUT
  deriving DecidableEq

/-- What a request object has: a local challenge, a request to an auth server, or neither. -/
inductive Kind
  | localRequest
  | remoteRequest
  | neither
  deriving DecidableEq

/-- A request object. For the record it has the connection that asked for it. -/
structure Request where
  userId : String
  cn : Nat
  domain : String
  kind : Kind
  conn : Nat
  deriving DecidableEq

/-- `clients[cn]`. -/
structure Client where
  authed : String → Option String
  requests : Nat → Option Request

/-- The function that a request to an auth server calls: the one of its start, or that of an
answer. -/
inductive Handler
  | start
  | answer
  deriving DecidableEq

/-- A request to an auth server, with the request object that its handlers refer to. -/
structure Remote where
  request : Request
  challenged : Bool
  completed : Bool
  completionHandler : Handler

/-- The connection that has a client number, and whether it has joined the game. -/
structure Peer where
  conn : Nat
  joined : Bool

/-- A request that waits for the connection to its auth server. -/
structure Deferred where
  conn : Nat
  cn : Nat
  userId : String
  domain : String

/-- What is recorded: a connection asks to be a user, a request is created for it, a challenge is
sent to a connection, a connection sends an answer, its answer is accepted, and the listeners are
notified of the status of a request. -/
inductive Entry
  | asked (conn : Nat) (userId domain : String)
  | created (id conn : Nat) (userId domain : String)
  | issued (conn id : Nat)
  | answered (conn id : Nat)
  | accepted (conn id : Nat)
  | completed (id : Nat) (status : Status)
  deriving DecidableEq

/-- The state of the script, the connections of the game server, the record, and whether a
completion has indexed the state of a client that is gone. -/
structure Auth where
  requests : Nat → Option Request
  nextRequestId : Nat
  clients : Nat → Option Client
  remotes : Nat → Option Remote
  timers : Nat → Bool
  deferred : List Deferred
  peers : Nat → Option Peer
  connections : Nat
  log : List Entry
  faulted : Bool

/-- Nothing has happened. -/
def Auth.init : Auth where
  requests _ := none
  nextRequestId := 1
  clients _ := none
  remotes _ := none
  timers _ := false
  deferred := []
  peers _ := none
  connections := 0
  log := []
  faulted := false

/-- An entry of the record. -/
def Auth.write (s : Auth) (e : Entry) : Auth := { s with log := s.log ++ [e] }

/-! ## Requests -/

/-- `init_client_state(cn)`. -/
def initClientState (s : Auth) (cn : Nat) : Auth :=
  match s.clients cn with
  | some _ => s
  | none =>
    { s with clients := Function.update s.clients cn (some ⟨fun _ => none, fun _ => none⟩) }

/-- `clients[request.cn].authed[request.domain.id] = request.user_id`. -/
def authenticate (s : Auth) (request : Request) (c : Client) : Auth :=
  { s with
    clients := Function.update s.clients request.cn
      (some { c with authed := Function.update c.authed request.domain (some request.userId) }) }

/-- A client that has not joined the game yet joins it, or is disconnected. -/
def joinOrReject (s : Auth) (cn : Nat) (p : Peer) (status : Status) : Auth :=
  if p.joined then s
  else if status = .SUCCESS then
    { s with peers := Function.update s.peers cn (some { p with joined := true }) }
  else { s with peers := Function.update s.peers cn none }

/-- The request is taken out of the tables, and the listeners are notified. -/
def finish (s : Auth) (id : Nat) (request : Request) (status : Status) : Auth :=
  let s := { s with requests := Function.update s.requests id none }
  match s.clients request.cn with
  | none => { s with faulted := true }
  | some c =>
    { s with
      clients := Function.update s.clients request.cn
        (some { c with requests := Function.update c.requests id none })
      log := s.log ++ [.completed id status] }

/-- The part of `complete_request` from the question whether the client has joined the game: there
has to be such a client. -/
def settle (s : Auth) (id : Nat) (request : Request) (status : Status) : Auth :=
  match s.peers request.cn with
  | none => { s with faulted := true }
  | some p => finish (joinOrReject s request.cn p status) id request status

/-- `complete_request(request, status)`. -/
def completeRequest (s : Auth) (id : Nat) (request : Request) (status : Status) : Auth :=
  if status = .SUCCESS then
    match s.clients request.cn with
    | none => { s with faulted := true }
    | some c => settle (authenticate s request c) id request status
  else settle s id request status

/-- `create_request(cn, user_id, domain, kick_cn)`, and what it is given afterwards. Where there is
no state of the client, an error ends it. -/
def createRequest (s : Auth) (conn cn : Nat) (userId domain : String) (kind : Kind) : Auth :=
  let id := s.nextRequestId
  match s.clients cn with
  | none =>
    { s with
      requests := Function.update s.requests id (some ⟨userId, cn, domain, .neither, conn⟩) }
  | some c =>
    let request : Request := ⟨userId, cn, domain, kind, conn⟩
    { s with
      requests := Function.update s.requests id (some request)
      clients := Function.update s.clients cn
        (some { c with requests := Function.update c.requests id (some request) })
      timers := Function.update s.timers id true
      nextRequestId := id + 1
      log := s.log ++ [.created id conn userId domain] }

/-- `server.send_auth_challenge_to_client(cn, ..)`; the challenge goes to whoever has the number. -/
def sendChallenge (s : Auth) (cn id : Nat) : Auth :=
  match s.peers cn with
  | none => s
  | some p => s.write (.issued p.conn id)

/-- `internal.send_request(cn, user_id, domain, kick_cn)` over a connection that has not failed. -/
def sendRequest (s : Auth) (conn cn : Nat) (userId domain : String) : Auth :=
  match s.clients cn with
  | none => createRequest s conn cn userId domain .remoteRequest
  | some _ =>
    let s' := createRequest s conn cn userId domain .remoteRequest
    { s' with
      remotes := Function.update s'.remotes s.nextRequestId
        (some ⟨⟨userId, cn, domain, .remoteRequest, conn⟩, false, false, .start⟩) }

/-- What the directory, and the connection to the auth server, make of a request. -/
inductive Route
  | unknownDomain
  | unknownUser
  | localKey
  | connected
  | notConnected
  deriving DecidableEq

/-- `start_auth_challenge(cn, user_id, domain)`. -/
def startAuthChallenge (s : Auth) (cn : Nat) (userId domain : String) (route : Route) : Auth :=
  match s.peers cn with
  | none => s
  | some p =>
    let s := (initClientState s cn).write (.asked p.conn userId domain)
    if (s.clients cn).bind (·.authed domain) = some userId then s
    else
      match route with
      | .unknownDomain => s
      | .unknownUser => s
      | .localKey =>
        sendChallenge (createRequest s p.conn cn userId domain .localRequest) cn
          s.nextRequestId
      | .connected => sendRequest s p.conn cn userId domain
      | .notConnected => { s with deferred := s.deferred ++ [⟨p.conn, cn, userId, domain⟩] }

/-- The callback of the `k`th deferred request, when the connection to its auth server is there or
has failed. -/
def connected (s : Auth) (k : Nat) (error_message : Bool) : Auth :=
  match s.deferred[k]? with
  | none => s
  | some d =>
    let s := { s with deferred := s.deferred.eraseIdx k }
    if error_message then s else sendRequest s d.conn d.cn d.userId d.domain

/-! ## Answers and replies -/

/-- The handler of a request to an auth server is called. -/
def completionHandler (s : Auth) (id : Nat) (r : Remote) (success : Bool) : Auth :=
  match r.completionHandler, success with
  | .start, true => sendChallenge s r.request.cn id
  | .start, false => completeRequest s id r.request .CHALLENGE_FAILED
  | .answer, true => completeRequest s id r.request .SUCCESS
  | .answer, false => completeRequest s id r.request .RESPONSE_FAILED

/-- `completed = true`, and the handler is called. -/
def finishRemote (s : Auth) (id : Nat) (r : Remote) (success : Bool) : Auth :=
  let r' := { r with completed := true }
  completionHandler { s with remotes := Function.update s.remotes id (some r') } id r success

/-- The event `auth_challenge_response`. -/
def authChallengeResponse (s : Auth) (cn id : Nat) (correct : Bool) : Auth :=
  match s.peers cn, s.requests id with
  | some p, some request =>
    match request.kind with
    | .remoteRequest =>
      match s.remotes id with
      | none => s
      | some r =>
        { s with
          remotes := Function.update s.remotes id (some { r with completionHandler := .answer })
          log := s.log ++ [.answered p.conn id] }
    | .localRequest =>
      if correct then completeRequest (s.write (.accepted p.conn id)) id request .SUCCESS
      else completeRequest s id request .RESPONSE_FAILED
    | .neither => s
  | _, _ => s

/-- A reply of an auth server. For the record, that of success has the connection whose answer was
accepted. -/
inductive Reply
  | chalauth
  | failauth
  | succauth (conn : Nat)

/-- `process_reply(arguments)`. -/
def processReply (s : Auth) (id : Nat) (r : Remote) (reply : Reply) : Auth :=
  if r.completed then s
  else
    match reply with
    | .chalauth =>
      if r.challenged then finishRemote s id r false
      else
        let r := { r with challenged := true }
        completionHandler { s with remotes := Function.update s.remotes id (some r) } id r true
    | .failauth => finishRemote s id r false
    | .succauth conn =>
      if r.challenged then finishRemote (s.write (.accepted conn id)) id r true
      else finishRemote s id r false

/-- The timer of a request. -/
def timer (s : Auth) (id : Nat) : Auth :=
  if s.timers id then
    let s := { s with timers := Function.update s.timers id false }
    match s.requests id with
    | none => s
    | some request => completeRequest s id request .TIMEOUT
  else s

/-! ## Clients come and go -/

/-- A connection gets a client number that is free. -/
def arrive (s : Auth) (cn : Nat) : Auth :=
  match s.peers cn with
  | some _ => s
  | none =>
    { s with
      peers := Function.update s.peers cn (some ⟨s.connections, false⟩)
      connections := s.connections + 1 }

/-- A client joins the game, and the event `connect` is seen. -/
def join (s : Auth) (cn : Nat) : Auth :=
  match s.peers cn with
  | none => s
  | some p =>
    initClientState
      { s with peers := Function.update s.peers cn (some { p with joined := true }) }
      cn

/-- The loop of the event `disconnect`, from the request `i` on: it ends where the client has no
request with the next id. -/
def cancelLoop : Nat → Nat → Nat → Auth → Auth
  | 0, _, _, s => s
  | fuel + 1, i, cn, s =>
    match (s.clients cn).bind (·.requests i) with
    | none => s
    | some request => cancelLoop fuel (i + 1) cn (completeRequest s i request .CANCELLED)

/-- The event `disconnect`. -/
def disconnect (s : Auth) (cn : Nat) : Auth :=
  match s.clients cn with
  | none => s
  | some _ =>
    let s := cancelLoop s.nextRequestId 1 cn s
    { s with clients := Function.update s.clients cn none }

/-- A connection ends. The script sees that only if the client had joined the game. -/
def leave (s : Auth) (cn : Nat) : Auth :=
  match s.peers cn with
  | none => s
  | some p =>
    let s := if p.joined then disconnect s cn else s
    { s with peers := Function.update s.peers cn none }

/-! ## Runs -/

/-- What happens. -/
inductive Action
  | arrive (cn : Nat)
  | join (cn : Nat)
  | leave (cn : Nat)
  | requestAuthChallenge (cn : Nat) (userId domain : String) (route : Route)
  | connected (k : Nat) (error_message : Bool)
  | authChallengeResponse (cn id : Nat) (correct : Bool)
  | reply (id : Nat) (reply : Reply)
  /-- The request cannot be sent. -/
  | sendFailed (id : Nat)
  /-- No more replies can be read. -/
  | readFailed (id : Nat)
  | timer (id : Nat)

/-- One step. -/
def step (s : Auth) : Action → Auth
  | .arrive cn => arrive s cn
  | .join cn => join s cn
  | .leave cn => leave s cn
  | .requestAuthChallenge cn userId domain route =>
    startAuthChallenge s cn userId domain route
  | .connected k error_message => connected s k error_message
  | .authChallengeResponse cn id correct => authChallengeResponse s cn id correct
  | .reply id reply =>
    match s.remotes id with
    | none => s
    | some r => processReply s id r reply
  | .sendFailed id =>
    match s.remotes id with
    | none => s
    | some r => if r.completed then s else finishRemote s id r false
  | .readFailed id =>
    match s.remotes id with
    | none => s
    | some r => finishRemote s id r false
  | .timer id => timer s id

end AuthCore

end Zuckerserv
