import Mathlib.Logic.Function.Basic
import Zuckerserv.Lib.Machine

/-!
# The table of users

The auth server keeps users in a database and in a table. The commands of the front end change the
database first and then the table.

* `Backend`, `Meets` — a database, and that it does what is documented.
* `addUser`, … `change_domain_sensitivity` — the commands.
* `InSync` — the table has what is stored.
* `Sound` — a command that keeps it so.
-/

namespace Zuckerserv

namespace UserTable

open Machine

/-! ## The database -/

/-- What is stored for a user. -/
structure User where
  pubkey : String
  priv : String
  deriving DecidableEq

/-- What is stored for a domain. -/
structure Domain where
  caseInsensitive : Bool
  users : String → Option User

/-- What is stored. -/
abbrev Content := String → Option Domain

/-- A call of the database. -/
inductive Call
  | addUser (name domain pubkey priv : String)
  | delUser (name domain : String)
  | changeUserName (name domain new_name : String)
  | changeUserKey (name domain pubkey : String)
  | changeUserPriv (name domain priv : String)
  | changeUserDomain (name domain new_domain : String)
  | addDomain (domain : String) (caseInsensitive : Bool)
  | delDomain (domain : String)
  | changeDomainName (domain new_domain : String)
  | changeDomainSensitivity (domain : String) (caseInsensitive : Bool)

/-- What is returned: an error, nothing, the key and the privilege of a user, or the users of a
domain with theirs. -/
inductive Reply
  | err (message : String)
  | nothing
  | user (u : User)
  | users (users : List (String × User))

/-- A user is set. -/
def Domain.set (d : Domain) (name : String) (user : Option User) : Domain :=
  { d with users := Function.update d.users name user }

/-- A user of what is stored is set. -/
def Content.set (c : Content) (name domain : String) (user : Option User) : Content :=
  Function.update c domain ((c domain).map fun d => d.set name user)

/-- The user that is stored. -/
def Content.user (c : Content) (name domain : String) : Option User :=
  (c domain).bind (·.users name)

/-- What a call is documented to do. -/
def documented (c : Content) : Call → Content
  | .addUser name domain pubkey priv => c.set name domain (some ⟨pubkey, priv⟩)
  | .delUser name domain => c.set name domain none
  | .changeUserName name domain new_name =>
    (c.set name domain none).set new_name domain (c.user name domain)
  | .changeUserKey name domain pubkey =>
    c.set name domain ((c.user name domain).map fun u => { u with pubkey := pubkey })
  | .changeUserPriv name domain priv =>
    c.set name domain ((c.user name domain).map fun u => { u with priv := priv })
  | .changeUserDomain name domain new_domain =>
    (c.set name domain none).set name new_domain (c.user name domain)
  | .addDomain domain caseInsensitive =>
    Function.update c domain (some ⟨caseInsensitive, fun _ => none⟩)
  | .delDomain domain => Function.update c domain none
  | .changeDomainName domain new_domain =>
    Function.update (Function.update c new_domain (c domain)) domain none
  | .changeDomainSensitivity domain caseInsensitive =>
    Function.update c domain
      ((c domain).map fun d => { d with caseInsensitive := caseInsensitive })

/-- The user that a call returns. -/
def Call.changed : Call → Option (String × String)
  | .changeUserName _ domain new_name => some (new_name, domain)
  | .changeUserKey name domain _ => some (name, domain)
  | .changeUserPriv name domain _ => some (name, domain)
  | .changeUserDomain name _ new_domain => some (name, new_domain)
  | _ => none

/-- The domain whose users a call returns. -/
def Call.listed : Call → Option String
  | .delDomain domain => some domain
  | .changeDomainName domain _ => some domain
  | .changeDomainSensitivity domain _ => some domain
  | _ => none

/-- A database. -/
structure Backend where
  State : Type
  isUser : State → String → String → Bool
  call : State → Call → State × Reply

/-- The call is not an error. -/
def Reply.accepts : Reply → Bool
  | .err _ => false
  | _ => true

/-- The database does what is documented: a call that fails changes nothing. -/
structure Meets (b : Backend) (content : b.State → Content) : Prop where
  isUser : ∀ s name domain, b.isUser s name domain = ((content s).user name domain).isSome
  failed : ∀ s c, (b.call s c).2.accepts = false → content (b.call s c).1 = content s
  done : ∀ s c, (b.call s c).2.accepts = true →
    content (b.call s c).1 = documented (content s) c
  changed : ∀ s c name domain, c.changed = some (name, domain) →
    (b.call s c).2.accepts = true →
    ∃ u, (b.call s c).2 = .user u ∧ (documented (content s) c).user name domain = some u
  listed : ∀ s c domain, c.listed = some domain → (b.call s c).2.accepts = true →
    ∃ users, (b.call s c).2 = .users users ∧
      ∀ name u, (name, u) ∈ users ↔ (content s).user name domain = some u

/-! ## The front end -/

/-- `string.lower`. -/
def lower (name : String) : String := name.map Char.toLower

/-- The users, by name and domain. -/
abbrev Table := String × String → Option User

/-- `adduser(name, desc, pubkey, priv)`: a user that is there keeps his key. -/
def adduser (t : Table) (name domain : String) (u : User) : Table :=
  match t (name, domain) with
  | some _ => t
  | none => Function.update t (name, domain) (some u)

/-- `deleteuser(name, desc)`. -/
def deleteuser (t : Table) (name domain : String) : Table := Function.update t (name, domain) none

/-- The database, what the front end keeps about the domains, and the table. -/
structure Front (b : Backend) where
  db : b.State
  domains : String → Bool
  caseInsensitiveDomains : String → Bool
  users : Table

/-- How a command ends: the last case is a run-time error of Lua. -/
inductive Outcome
  | done
  | failed (message : String)
  | error

variable {b : Backend}

/-- The lower-cased name is removed, where it is another one. -/
def deleteLowered (t : Table) (name domain : String) : Table :=
  if name = lower name then t else deleteuser t (lower name) domain

/-- `server.add_user(name, domain, pubkey, priv)`. -/
def addUser (f : Front b) (name domain pubkey priv : String) : Front b × Outcome :=
  if 15 < name.utf8ByteSize then
    (f, .failed ("add_user: " ++ name ++ " is too long. (Maximum 15 characters.)"))
  else if name = "unnamed" ∨ name = "bot" then
    (f, .failed "add_user: 'unnamed' and 'bot' are not allowed as usernames.")
  else if f.domains domain = false then
    (f, .failed ("add_user: Domain, " ++ domain ++ " doesn't exist."))
  else if b.isUser f.db name domain then
    (f, .failed ("add_user: " ++ name ++ "@" ++ domain ++ " already exists."))
  else
    match b.call f.db (.addUser name domain pubkey priv) with
    | (db, .err message) => ({ f with db := db }, .failed ("add_user (backend): " ++ message))
    | (db, _) =>
      ({ f with
        db := db
        users := if f.caseInsensitiveDomains domain then
            adduser f.users (lower name) domain ⟨pubkey, priv⟩
          else adduser f.users name domain ⟨pubkey, priv⟩ }, .done)

/-- `server.del_user(name, domain)`. -/
def delUser (f : Front b) (name domain : String) : Front b × Outcome :=
  if f.domains domain = false then
    (f, .failed ("del_user: Domain, " ++ domain ++ " does not exist."))
  else if b.isUser f.db name domain = false then
    (f, .failed ("del_user: " ++ name ++ "@" ++ domain ++ " does not exist."))
  else
    match b.call f.db (.delUser name domain) with
    | (db, .err message) => ({ f with db := db }, .failed ("del_user (backend): " ++ message))
    | (db, _) =>
      ({ f with
        db := db
        users := deleteuser (if f.caseInsensitiveDomains domain then
          deleteLowered f.users name domain else f.users) name domain }, .done)

/-- `server.change_user_name(name, domain, new_name)`. -/
def changeUserName (f : Front b) (name domain new_name : String) : Front b × Outcome :=
  if name = new_name then
    (f, .failed ("change_user_name: User is already named " ++ name ++ "."))
  else if f.domains domain = false then
    (f, .failed ("change_user_name: Domain, " ++ domain ++ " does not exist."))
  else if b.isUser f.db name domain = false then
    (f, .failed ("change_user_name: " ++ name ++ "@" ++ domain ++ " does not exist."))
  else if b.isUser f.db new_name domain then
    (f, .failed ("change_user_name: " ++ new_name ++ "@" ++ domain ++ " already exists."))
  else
    match b.call f.db (.changeUserName name domain new_name) with
    | (db, .err message) =>
      ({ f with db := db }, .failed ("change_user_name (backend): " ++ message))
    | (db, .user u) =>
      ({ f with
        db := db
        users := adduser (deleteuser (if f.caseInsensitiveDomains domain then
            adduser (deleteLowered f.users name domain) (lower new_name) domain u
          else f.users) name domain) new_name domain u }, .done)
    | (db, _) => ({ f with db := db }, .error)

/-- What `server.change_user_key(name, domain, pubkey)` and `server.change_user_priv(name, domain,
priv)` do: where the domain is not case-sensitive they lower `new_name`, which is no variable. -/
def changeUser (command : String) (call : Call) (f : Front b) (name domain : String) :
    Front b × Outcome :=
  if f.domains domain = false then
    (f, .failed (command ++ ": Domain, " ++ domain ++ " does not exist."))
  else if b.isUser f.db name domain = false then
    (f, .failed (command ++ ": " ++ name ++ "@" ++ domain ++ " does not exist."))
  else
    match b.call f.db call with
    | (db, .err message) => ({ f with db := db }, .failed (command ++ " (backend): " ++ message))
    | (db, .user u) =>
      if f.caseInsensitiveDomains domain then
        ({ f with db := db, users := deleteLowered f.users name domain }, .error)
      else
        ({ f with
          db := db
          users := adduser (deleteuser f.users name domain) name domain u }, .done)
    | (db, _) => ({ f with db := db }, .error)

/-- `server.change_user_key(name, domain, pubkey)`. -/
def changeUserKey (f : Front b) (name domain pubkey : String) : Front b × Outcome :=
  changeUser "change_user_key" (.changeUserKey name domain pubkey) f name domain

/-- `server.change_user_priv(name, domain, priv)`. -/
def changeUserPriv (f : Front b) (name domain priv : String) : Front b × Outcome :=
  changeUser "change_user_priv" (.changeUserPriv name domain priv) f name domain

/-- `server.change_user_domain(name, domain, new_domain)`. -/
def changeUserDomain (f : Front b) (name domain new_domain : String) : Front b × Outcome :=
  if domain = new_domain then
    (f, .failed ("change_user_domain: User is already in " ++ domain ++ "."))
  else if f.domains domain = false then
    (f, .failed ("change_user_domain: Domain, " ++ domain ++ " does not exist."))
  else if f.domains new_domain = false then
    (f, .failed ("change_user_domain: Domain, " ++ new_domain ++ " does not exist."))
  else if b.isUser f.db name domain = false then
    (f, .failed ("change_user_domain: " ++ name ++ "@" ++ domain ++ " does not exist."))
  else if b.isUser f.db name new_domain then
    (f, .failed ("change_user_domain: " ++ name ++ "@" ++ new_domain ++ " already exist."))
  else
    match b.call f.db (.changeUserDomain name domain new_domain) with
    | (db, .err message) =>
      ({ f with db := db }, .failed ("change_user_domain (backend): " ++ message))
    | (db, .user u) =>
      ({ f with
        db := db
        users := adduser (deleteuser (if f.caseInsensitiveDomains domain then
            adduser (deleteLowered f.users name domain) (lower name) new_domain u
          else f.users) name domain) name new_domain u }, .done)
    | (db, _) => ({ f with db := db }, .error)

/-- `server.add_domain(domain, case_insensitive)`: `"0"` is taken for `nil`. -/
def addDomain (f : Front b) (domain : String) (caseInsensitive : Option String) :
    Front b × Outcome :=
  if f.domains domain then
    (f, .failed ("add_domain: Domain, " ++ domain ++ " already exists."))
  else
    let caseInsensitive := caseInsensitive.isSome && caseInsensitive != some "0"
    match b.call f.db (.addDomain domain caseInsensitive) with
    | (db, .err message) => ({ f with db := db }, .failed ("add_domain (backend): " ++ message))
    | (db, _) =>
      ({ f with
        db := db
        domains := Function.update f.domains domain true
        caseInsensitiveDomains := if caseInsensitive then
          Function.update f.caseInsensitiveDomains domain true
          else f.caseInsensitiveDomains }, .done)

/-- `server.del_domain(domain)`. -/
def delDomain (f : Front b) (domain : String) : Front b × Outcome :=
  if f.domains domain = false then
    (f, .failed ("del_domain: Domain, " ++ domain ++ " does not exist."))
  else
    match b.call f.db (.delDomain domain) with
    | (db, .err message) => ({ f with db := db }, .failed ("del_domain (backend): " ++ message))
    | (db, .users users) =>
      let lowered := if f.caseInsensitiveDomains domain then
        users.foldl (fun t user => deleteLowered t user.1 domain) f.users else f.users
      ({ db := db
         domains := Function.update f.domains domain false
         caseInsensitiveDomains := Function.update f.caseInsensitiveDomains domain false
         users := users.foldl (fun t user => deleteuser t user.1 domain) lowered }, .done)
    | (db, _) => ({ f with db := db }, .error)

/-- `server.change_domain_name(domain, new_domain)`. The users are asked for a `privilege`, but it
is called `priv`; so `adduser` is called without one, which is an error, at the first user. -/
def changeDomainName (f : Front b) (domain new_domain : String) : Front b × Outcome :=
  if domain = new_domain then
    (f, .failed ("change_user_domain: Domain is already named " ++ domain ++ "."))
  else if f.domains domain = false then
    (f, .failed ("change_domain_name: Domain, " ++ domain ++ " does not exist."))
  else if f.domains new_domain then
    (f, .failed ("change_domain_name: Domain, " ++ new_domain ++ " already exists."))
  else
    match b.call f.db (.changeDomainName domain new_domain) with
    | (db, .err message) =>
      ({ f with db := db }, .failed ("change_domain_name (backend): " ++ message))
    | (db, .users ((name, _) :: _)) =>
      if f.caseInsensitiveDomains domain then
        ({ f with db := db, users := deleteLowered f.users name domain }, .error)
      else ({ f with db := db, users := deleteuser f.users name domain }, .error)
    | (db, .users []) =>
      ({ f with
        db := db
        domains := Function.update (Function.update f.domains domain false) new_domain true
        caseInsensitiveDomains := if f.caseInsensitiveDomains domain then
          Function.update (Function.update f.caseInsensitiveDomains domain false) new_domain true
          else f.caseInsensitiveDomains }, .done)
    | (db, _) => ({ f with db := db }, .error)

/-- `server.change_domain_sensitivity(domain, case_insensitive)`, with the same error. -/
def changeDomainSensitivity (f : Front b) (domain : String) (caseInsensitive : Option String) :
    Front b × Outcome :=
  if f.domains domain = false then
    (f, .failed ("change_domain_sensitivity: Domain, " ++ domain ++ " does not exist."))
  else if caseInsensitive.isSome = f.caseInsensitiveDomains domain then (f, .done)
  else
    match b.call f.db (.changeDomainSensitivity domain caseInsensitive.isSome) with
    | (db, .err message) =>
      ({ f with db := db }, .failed ("change_domain_sensitivity (backend): " ++ message))
    | (db, .users ((name, _) :: _)) =>
      if caseInsensitive.isSome then
        ({ f with db := db, users := deleteuser f.users name domain }, .error)
      else
        ({ f with
          db := db
          users := deleteuser (deleteLowered f.users name domain) name domain }, .error)
    | (db, .users []) =>
      ({ f with
        db := db
        caseInsensitiveDomains :=
          Function.update f.caseInsensitiveDomains domain caseInsensitive.isSome }, .done)
    | (db, _) => ({ f with db := db }, .error)

/-- A command. -/
inductive Command
  | addUser (name domain pubkey priv : String)
  | delUser (name domain : String)
  | changeUserName (name domain new_name : String)
  | changeUserKey (name domain pubkey : String)
  | changeUserPriv (name domain priv : String)
  | changeUserDomain (name domain new_domain : String)
  | addDomain (domain : String) (caseInsensitive : Option String)
  | delDomain (domain : String)
  | changeDomainName (domain new_domain : String)
  | changeDomainSensitivity (domain : String) (caseInsensitive : Option String)

/-- A command of the front end. -/
def apply (f : Front b) : Command → Front b × Outcome
  | .addUser name domain pubkey priv => addUser f name domain pubkey priv
  | .delUser name domain => delUser f name domain
  | .changeUserName name domain new_name => changeUserName f name domain new_name
  | .changeUserKey name domain pubkey => changeUserKey f name domain pubkey
  | .changeUserPriv name domain priv => changeUserPriv f name domain priv
  | .changeUserDomain name domain new_domain => changeUserDomain f name domain new_domain
  | .addDomain domain caseInsensitive => addDomain f domain caseInsensitive
  | .delDomain domain => delDomain f domain
  | .changeDomainName domain new_domain => changeDomainName f domain new_domain
  | .changeDomainSensitivity domain caseInsensitive =>
    changeDomainSensitivity f domain caseInsensitive

/-- One step. -/
def step (f : Front b) (command : Command) : Front b := (apply f command).1

/-! ## What is to be -/

/-- A name under which a user is found. -/
def Key (caseInsensitive : Bool) (name key : String) : Prop :=
  key = name ∨ (caseInsensitive = true ∧ key = lower name)

/-- The user that is found. -/
def Found (c : Content) (key domain : String) (u : User) : Prop :=
  ∃ d name, c domain = some d ∧ d.users name = some u ∧ Key d.caseInsensitive name key

/-- Names differ when they are lower-cased. -/
def Distinct (c : Content) : Prop := ∀ domain d name name', c domain = some d →
  (d.users name).isSome → (d.users name').isSome → lower name = lower name' → name = name'

/-- What the front end keeps is what is stored. -/
structure InSync (content : b.State → Content) (f : Front b) : Prop where
  domains : ∀ domain, f.domains domain = (content f.db domain).isSome
  caseInsensitive : ∀ domain,
    f.caseInsensitiveDomains domain = (content f.db domain).any (·.caseInsensitive)
  found : ∀ key domain u, f.users (key, domain) = some u ↔ Found (content f.db) key domain u

/-- A condition under which a command does what it should, if the database accepts it. -/
def Sound (f : Front b) : Command → Prop
  | .addUser name domain pubkey priv =>
    (b.call f.db (.addUser name domain pubkey priv)).2.accepts = true →
      f.caseInsensitiveDomains domain = true → lower name = name
  | .changeUserName name domain new_name =>
    (b.call f.db (.changeUserName name domain new_name)).2.accepts = true →
      f.caseInsensitiveDomains domain = true → lower new_name ≠ name
  | .changeUserKey name domain pubkey =>
    (b.call f.db (.changeUserKey name domain pubkey)).2.accepts = true →
      b.isUser f.db name domain = true → f.caseInsensitiveDomains domain = false
  | .changeUserPriv name domain priv =>
    (b.call f.db (.changeUserPriv name domain priv)).2.accepts = true →
      b.isUser f.db name domain = true → f.caseInsensitiveDomains domain = false
  | .changeUserDomain name domain new_domain =>
    (b.call f.db (.changeUserDomain name domain new_domain)).2.accepts = true →
      f.caseInsensitiveDomains domain = f.caseInsensitiveDomains new_domain ∨
        lower name = name
  | .changeDomainName domain new_domain =>
    (b.call f.db (.changeDomainName domain new_domain)).2.accepts = true →
      f.domains new_domain = false → ∀ name, b.isUser f.db name domain = false
  | .changeDomainSensitivity domain caseInsensitive =>
    (b.call f.db (.changeDomainSensitivity domain caseInsensitive.isSome)).2.accepts = true →
      caseInsensitive.isSome ≠ f.caseInsensitiveDomains domain →
        ∀ name, b.isUser f.db name domain = false
  | _ => True

end UserTable

end Zuckerserv
