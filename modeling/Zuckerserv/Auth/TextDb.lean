import Mathlib.Data.List.AList
import Zuckerserv.Lib.Machine

/-!
# The text database

The text database keeps domains and users in tables, and writes them to a file as a Lua script,
which is executed when the database is loaded.

* `Db`, `apply` — the tables and the operations of the backend.
* `writeDb` — the script for the tables.
* `exec` — how Lua reads and runs a script of calls.
* `contract` — what the operations are documented to do.
* `reproduced_iff` — when the script gives back what the operations have stored.
-/

namespace Zuckerserv

namespace TextDb

open Machine

/-! ## The tables -/

/-- The keys of the users of a domain. -/
abbrev Users := AList fun _ : String => String

/-- `mem` and `mem_case_insensitive_domains`. -/
structure Db where
  mem : AList fun _ : String => Users
  caseInsensitive : String → Bool

/-- What an operation returns when it succeeds. -/
inductive Returned
  | nothing
  | pubkey (key : String)
  | names (names : List String)
  | users (users : Users)

/-- An error, or the new tables and what is returned. -/
abbrev Result := Except String (Db × Returned)

/-- `msg.no_domain`. -/
def noDomain (domain : String) : String := "Domain, " ++ domain ++ " does not exist."

/-- `msg.domain`. -/
def domainExists (domain : String) : String := "Domain, " ++ domain ++ " already exists."

/-- `msg.no_user`. -/
def noUser (name domain : String) : String :=
  "User, " ++ name ++ "@" ++ domain ++ " does not exist."

/-- `msg.user`. -/
def userExists (name domain : String) : String :=
  "User, " ++ name ++ "@" ++ domain ++ " already exists."

/-- `msg.same`. -/
def same (name new_name : String) : String := name ++ " is named " ++ new_name ++ "."

/-- The users of a domain are replaced. -/
def Db.set (db : Db) (domain : String) (users : Users) : Db :=
  { db with mem := db.mem.insert domain users }

/-- `external_add_user(name, domain, pubkey)`. -/
def addUser (db : Db) (name domain pubkey : String) : Result :=
  match db.mem.lookup domain with
  | none => .error (noDomain domain)
  | some users =>
    match users.lookup name with
    | some _ => .error (userExists name domain)
    | none => .ok (db.set domain (users.insert name pubkey), .nothing)

/-- `external_del_user(name, domain)`. -/
def delUser (db : Db) (name domain : String) : Result :=
  match db.mem.lookup domain with
  | none => .error (noDomain domain)
  | some users =>
    match users.lookup name with
    | none => .error (noUser name domain)
    | some _ => .ok (db.set domain (users.erase name), .nothing)

/-- `external_change_user_name(name, domain, new_name)`. -/
def changeUserName (db : Db) (name domain new_name : String) : Result :=
  if name = new_name then .error (same name new_name)
  else
    match db.mem.lookup domain with
    | none => .error (noDomain domain)
    | some users =>
      match users.lookup name, users.lookup new_name with
      | none, _ => .error (noUser name domain)
      | some _, some _ => .error (userExists new_name domain)
      | some key, none =>
        .ok (db.set domain ((users.insert new_name key).erase name), .pubkey key)

/-- `external_change_user_key(name, domain, new_pubkey)`. -/
def changeUserKey (db : Db) (name domain new_pubkey : String) : Result :=
  match db.mem.lookup domain with
  | none => .error (noDomain domain)
  | some users =>
    match users.lookup name with
    | none => .error (noUser name domain)
    | some _ => .ok (db.set domain (users.insert name new_pubkey), .nothing)

/-- `external_change_user_domain(name, domain, new_domain)`. -/
def changeUserDomain (db : Db) (name domain new_domain : String) : Result :=
  if domain = new_domain then .error (same domain new_domain)
  else
    match db.mem.lookup domain, db.mem.lookup new_domain with
    | none, _ => .error (noDomain domain)
    | some _, none => .error (noDomain new_domain)
    | some users, some new_users =>
      match users.lookup name, new_users.lookup name with
      | none, _ => .error (noUser name domain)
      | some _, some _ => .error (userExists name new_domain)
      | some key, none =>
        .ok ((db.set new_domain (new_users.insert name key)).set domain (users.erase name),
          .pubkey key)

/-- `external_add_domain(domain, case_insensitive)`: a mark that is there stays. -/
def addDomain (db : Db) (domain : String) (caseInsensitive : Bool) : Result :=
  match db.mem.lookup domain with
  | some _ => .error (domainExists domain)
  | none =>
    .ok ({ mem := db.mem.insert domain ∅
           caseInsensitive :=
             if caseInsensitive then Function.update db.caseInsensitive domain true
             else db.caseInsensitive }, .nothing)

/-- `external_del_domain(domain)`: the mark stays. -/
def delDomain (db : Db) (domain : String) : Result :=
  match db.mem.lookup domain with
  | none => .error (noDomain domain)
  | some users => .ok ({ db with mem := db.mem.erase domain }, .names users.keys)

/-- The users of a domain are added to those of another one, and the domain is removed. -/
def Db.move (db : Db) (domain new_domain : String) (users new_users : Users) : Db :=
  { db with mem := (db.mem.insert new_domain (users ∪ new_users)).erase domain }

/-- `external_change_domain_name(domain, new_domain)`. -/
def changeDomainName (db : Db) (domain new_domain : String) : Result :=
  if domain = new_domain then .error (same domain new_domain)
  else
    match db.mem.lookup domain with
    | none => .error (noDomain domain)
    | some users =>
      match db.mem.lookup new_domain with
      | none =>
        let db := { db with
          caseInsensitive :=
            Function.update db.caseInsensitive new_domain (db.caseInsensitive domain) }
        .ok (db.move domain new_domain users ∅, .users users)
      | some new_users =>
        if db.caseInsensitive domain ≠ db.caseInsensitive new_domain then
          .error "New domain already exists and has not the same case sensitive setting."
        else
          match users.keys.find? fun name => (new_users.lookup name).isSome with
          | some name => .error (userExists name new_domain)
          | none => .ok (db.move domain new_domain users new_users, .users users)

/-- `external_change_domain_sensitivity(domain, case_insensitive)`. -/
def changeDomainSensitivity (db : Db) (domain : String) (caseInsensitive : Bool) : Result :=
  match db.mem.lookup domain with
  | none => .error (noDomain domain)
  | some users =>
    .ok ({ db with
      caseInsensitive := Function.update db.caseInsensitive domain caseInsensitive },
      .users users)

/-- The operations that write the file. The privilege is an argument that the text database does
not take. -/
inductive Op
  | addUser (name domain pubkey priv : String)
  | delUser (name domain : String)
  | changeUserName (name domain new_name : String)
  | changeUserKey (name domain pubkey : String)
  | changeUserDomain (name domain new_domain : String)
  | addDomain (domain : String) (caseInsensitive : Bool)
  | delDomain (domain : String)
  | changeDomainName (domain new_domain : String)
  | changeDomainSensitivity (domain : String) (caseInsensitive : Bool)

/-- An operation. -/
def apply (db : Db) : Op → Result
  | .addUser name domain pubkey _ => addUser db name domain pubkey
  | .delUser name domain => delUser db name domain
  | .changeUserName name domain new_name => changeUserName db name domain new_name
  | .changeUserKey name domain pubkey => changeUserKey db name domain pubkey
  | .changeUserDomain name domain new_domain => changeUserDomain db name domain new_domain
  | .addDomain domain caseInsensitive => addDomain db domain caseInsensitive
  | .delDomain domain => delDomain db domain
  | .changeDomainName domain new_domain => changeDomainName db domain new_domain
  | .changeDomainSensitivity domain caseInsensitive =>
    changeDomainSensitivity db domain caseInsensitive

/-! ## The file -/

/-- `"__add_domain \""`. -/
def addDomainName : List Char := ['_', '_', 'a', 'd', 'd', '_', 'd', 'o', 'm', 'a', 'i', 'n']

/-- `"__add_user \""`. -/
def addUserName : List Char := ['_', '_', 'a', 'd', 'd', '_', 'u', 's', 'e', 'r']

/-- A string between quotes. -/
def quoted (s : String) : List Char := '"' :: (s.toList ++ ['"'])

/-- The line of a user. -/
def userLine (domain : String) (user : String × String) : List Char :=
  addUserName ++ ' ' :: (quoted user.1 ++ ' ' :: (quoted domain ++ ' ' :: (quoted user.2 ++ ['\n'])))

/-- The lines of a domain. -/
def domainLines (db : Db) (domain : String × List (String × String)) : List Char :=
  addDomainName ++ ' ' :: (quoted domain.1 ++
    (if db.caseInsensitive domain.1 then ' ' :: quoted "case_insensitive" else []) ++
    '\n' :: domain.2.flatMap (userLine domain.1))

/-- The domains and users, in the order in which `pairs` goes through the tables, which is any. -/
structure Pairs (db : Db) (domains : List (String × List (String × String))) : Prop where
  perm : (domains.map Prod.fst).Perm db.mem.keys
  users : ∀ domain ∈ domains, ∃ users, db.mem.lookup domain.1 = some users ∧
    domain.2.Perm (users.entries.map fun user => (user.1, user.2))

/-- `write_db()`. -/
def writeDb (db : Db) (domains : List (String × List (String × String))) : List Char :=
  domains.flatMap (domainLines db)

/-! ## The script -/

/-- `domains_and_users` and `case_insensitive_domains`. -/
structure Loaded where
  domainsAndUsers : String → Option (String → Option String)
  caseInsensitiveDomains : String → Bool

/-- A function that returns nothing; there may be an error. -/
abbrev Native := List String → Loaded → Option Loaded

/-- The global variables and the fields of `core` that are functions which the file may call. -/
structure Lua where
  globals : List Char → Option Native
  core : List Char → Option Native

/-- `server.__add_domain(domain, case_insensitive)`. -/
def addDomainNative : Native
  | [], _ => none
  | domain :: rest, l =>
    some
      { domainsAndUsers := Function.update l.domainsAndUsers domain (some fun _ => none)
        caseInsensitiveDomains :=
          if rest = [] then l.caseInsensitiveDomains
          else Function.update l.caseInsensitiveDomains domain true }

/-- `server.__add_user(name, domain, pubkey)`: there is an error where there is no domain. -/
def addUserNative : Native
  | name :: domain :: pubkey :: _, l =>
    (l.domainsAndUsers domain).map fun users =>
      { l with
        domainsAndUsers := Function.update l.domainsAndUsers domain
          (some (Function.update users name (some pubkey))) }
  | _, _ => none

/-- The functions are assigned to fields of `server`, which hands them on to `core`. The global
variables stay as they are. -/
def defineFunctions (lua : Lua) : Lua :=
  { lua with
    core := Function.update (Function.update lua.core addDomainName (some addDomainNative)) addUserName
      (some addUserNative) }

/-- A fresh process: neither name is a global variable. -/
def fresh : Lua := ⟨fun _ => none, fun _ => none⟩

/-- A token of a script of calls. -/
inductive Token
  | name (name : List Char)
  | string (s : List Char)

/-- The letter behind a backslash. -/
def escaped (c : Char) : Char :=
  if c = 'n' then '\n' else if c = 't' then '\t' else if c = 'r' then '\r' else c

/-- A string up to its closing quote. A numeric escape is not read. -/
def readString : List Char → Option (List Char × List Char)
  | [] => none
  | '"' :: text => some ([], text)
  | '\n' :: _ => none
  | '\\' :: c :: text =>
    if c.isDigit then none else (readString text).map fun (s, rest) => (escaped c :: s, rest)
  | c :: text => (readString text).map fun (s, rest) => (c :: s, rest)

/-- A character of a name. -/
def nameChar (c : Char) : Bool := c.isAlphanum || c == '_'

/-- The tokens, at most so many; other tokens than names and strings are not read. -/
def lex : Nat → List Char → Option (List Token)
  | 0, _ => none
  | _ + 1, [] => some []
  | fuel + 1, c :: text =>
    if c.isWhitespace then lex fuel text
    else if c = '"' then
      (readString text).bind fun (s, rest) => (lex fuel rest).map (.string s :: ·)
    else if nameChar c && !c.isDigit then
      (lex fuel (text.dropWhile nameChar)).map (.name (c :: text.takeWhile nameChar) :: ·)
    else none

/-- The strings that come first, and then the calls, each with the strings behind the name. -/
def calls : List Token → List (List Char) × List (List Char × List (List Char))
  | [] => ([], [])
  | .string s :: tokens => (s :: (calls tokens).1, (calls tokens).2)
  | .name f :: tokens => ([], (f, (calls tokens).1) :: (calls tokens).2)

/-- A script of calls; each one has a string at least. -/
def parse (file : List Char) : Option (List (List Char × List (List Char))) :=
  (lex (file.length + 1) file).bind fun tokens =>
    match calls tokens with
    | ([], cs) => if cs.all fun c => !c.2.isEmpty then some cs else none
    | _ => none

/-- The calls `f "a" "b"`: the value of `f "a"`, which is called with `"b"`, is `nil`. -/
def call (lua : Lua) (l : Loaded) : List Char × List (List Char) → Option Loaded
  | (f, [arg]) => (lua.globals f).bind fun native => native [String.ofList arg] l
  | _ => none

/-- `exec(file)`. -/
def exec (lua : Lua) (file : List Char) : Option Loaded :=
  (parse file).bind fun cs => cs.foldlM (call lua) ⟨fun _ => none, fun _ => false⟩

/-! ## The contract -/

/-- What is stored for a user. -/
structure Account where
  pubkey : String
  priv : Option String

/-- What is stored for a domain. -/
structure Domain where
  caseInsensitive : Bool
  users : String → Option Account

/-- What is stored. -/
abbrev Contract := String → Option Domain

/-- A domain is changed. -/
def modify (c : Contract) (domain : String) (f : Domain → Domain) : Contract :=
  Function.update c domain ((c domain).map f)

/-- A user is set. -/
def Domain.set (name : String) (user : Option Account) (d : Domain) : Domain :=
  { d with users := Function.update d.users name user }

/-- What an operation that has succeeded is documented to do. -/
def contract (c : Contract) : Op → Contract
  | .addUser name domain pubkey priv => modify c domain (Domain.set name (some ⟨pubkey, priv⟩))
  | .delUser name domain => modify c domain (Domain.set name none)
  | .changeUserName name domain new_name =>
    modify c domain fun d => (d.set new_name (d.users name)).set name none
  | .changeUserKey name domain pubkey =>
    modify c domain fun d => d.set name ((d.users name).map fun a => { a with pubkey := pubkey })
  | .changeUserDomain name domain new_domain =>
    modify (modify c new_domain (Domain.set name ((c domain).bind (·.users name)))) domain
      (Domain.set name none)
  | .addDomain domain caseInsensitive =>
    Function.update c domain (some ⟨caseInsensitive, fun _ => none⟩)
  | .delDomain domain => Function.update c domain none
  | .changeDomainName domain new_domain =>
    Function.update (Function.update c new_domain ((c domain).map fun d =>
      match c new_domain with
      | none => d
      | some e => { e with users := fun name => (d.users name).or (e.users name) })) domain none
  | .changeDomainSensitivity domain caseInsensitive =>
    modify c domain fun d => { d with caseInsensitive := caseInsensitive }

/-- The tables, and what is to be stored. -/
structure State where
  db : Db
  contract : Contract

/-- The database is new. -/
def State.init : State := ⟨⟨∅, fun _ => false⟩, fun _ => none⟩

/-- An operation that has failed changes nothing. -/
def step (s : State) (op : Op) : State :=
  match apply s.db op with
  | .error _ => s
  | .ok (db, _) => ⟨db, TextDb.contract s.contract op⟩

/-- The state after the operations. -/
def after (ops : List Op) : State := Machine.run step State.init ops

/-- What a fresh process has loaded. The value of a user is the key alone. -/
def Loaded.contract (l : Loaded) : Contract := fun domain =>
  (l.domainsAndUsers domain).map fun users =>
    ⟨l.caseInsensitiveDomains domain, fun name => (users name).map fun key => ⟨key, none⟩⟩

/-- A fresh process that executes the file has what is to be stored. -/
def Reproduces (file : List Char) (c : Contract) : Prop :=
  (exec (defineFunctions fresh) file).map Loaded.contract = some c

/-- The texts of an operation. -/
def Op.texts : Op → List String
  | .addUser name domain pubkey priv => [name, domain, pubkey, priv]
  | .delUser name domain => [name, domain]
  | .changeUserName name domain new_name => [name, domain, new_name]
  | .changeUserKey name domain pubkey => [name, domain, pubkey]
  | .changeUserDomain name domain new_domain => [name, domain, new_domain]
  | .addDomain domain _ => [domain]
  | .delDomain domain => [domain]
  | .changeDomainName domain new_domain => [domain, new_domain]
  | .changeDomainSensitivity domain _ => [domain]

/-- No text has a quote in it. -/
def Op.QuoteFree (op : Op) : Prop := ∀ s ∈ op.texts, '"' ∉ s.toList

/-! ## Which domains there are -/

/-- The domains of the tables are those that are to be stored. -/
def Agrees (s : State) : Prop := ∀ domain, domain ∈ s.db.mem ↔ (s.contract domain).isSome

variable {s : State} {db : Db}

theorem isSome_modify (c : Contract) (domain : String) (f : Domain → Domain) (domain' : String) :
    (modify c domain f domain').isSome = (c domain').isSome := by
  unfold modify
  by_cases hd : domain' = domain
  · rw [hd, Function.update_self, Option.isSome_map]
  · rw [Function.update_of_ne hd]

/-- The users of a domain that is there are replaced. -/
theorem mem_set {domain : String} (hd : domain ∈ db.mem) (users : Users) (domain' : String) :
    domain' ∈ (db.set domain users).mem ↔ domain' ∈ db.mem := by
  refine (AList.mem_insert _).trans ⟨fun h => ?_, .inr⟩
  rcases h with rfl | h
  · exact hd
  · exact h

theorem mem_of_lookup {domain : String} {users : Users} (h : db.mem.lookup domain = some users) :
    domain ∈ db.mem :=
  AList.lookup_isSome.mp (h ▸ rfl)

/-- A domain is moved. -/
theorem mem_move (domain new_domain : String) (users new_users : Users) (domain' : String) :
    domain' ∈ (db.move domain new_domain users new_users).mem ↔
      domain' ≠ domain ∧ (domain' = new_domain ∨ domain' ∈ db.mem) :=
  AList.mem_erase.trans (and_congr_right fun _ => AList.mem_insert _)

/-- The tables when an operation has changed the users alone. -/
theorem Agrees.same (h : Agrees s) {db : Db} {c : Contract}
    (hdb : ∀ domain, domain ∈ db.mem ↔ domain ∈ s.db.mem)
    (hc : ∀ domain, (c domain).isSome = (s.contract domain).isSome) : Agrees ⟨db, c⟩ := by
  intro domain
  change domain ∈ db.mem ↔ (c domain).isSome
  rw [hdb, hc]
  exact h domain

/-- A domain is moved in the tables and in what is to be stored. -/
theorem Agrees.move (h : Agrees s) {domain new_domain : String} {users : Users}
    (hlookup : s.db.mem.lookup domain = some users) (db : Db) (hdb : db.mem = s.db.mem)
    (new_users : Users) : Agrees ⟨db.move domain new_domain users new_users,
      TextDb.contract s.contract (.changeDomainName domain new_domain)⟩ := by
  intro domain'
  refine (mem_move domain new_domain users new_users domain').trans ?_
  change _ ↔ (Function.update (Function.update s.contract new_domain _) domain none domain').isSome
  by_cases hd : domain' = domain
  · rw [hd, Function.update_self]
    exact ⟨fun hmem => absurd rfl hmem.1, nofun⟩
  · rw [Function.update_of_ne hd, hdb]
    by_cases hn : domain' = new_domain
    · rw [hn, Function.update_self, Option.isSome_map]
      exact ⟨fun _ => (h domain).mp (mem_of_lookup hlookup), fun _ => ⟨hn ▸ hd, .inl rfl⟩⟩
    · rw [Function.update_of_ne hn]
      exact ⟨fun hmem => (h domain').mp (hmem.2.resolve_left hn),
        fun hsome => ⟨hd, .inr ((h domain').mpr hsome)⟩⟩

/-! ### What the operations on users leave -/

section Users

variable {db' : Db} {returned : Returned} {name domain : String}

theorem mem_addUser {pubkey : String} (h : addUser db name domain pubkey = .ok (db', returned))
    (domain' : String) : domain' ∈ db'.mem ↔ domain' ∈ db.mem := by
  unfold addUser at h
  split at h
  · cases h
  · next users hlookup =>
    split at h
    · cases h
    · cases h
      exact mem_set (mem_of_lookup hlookup) _ domain'

theorem mem_delUser (h : delUser db name domain = .ok (db', returned)) (domain' : String) :
    domain' ∈ db'.mem ↔ domain' ∈ db.mem := by
  unfold delUser at h
  split at h
  · cases h
  · next users hlookup =>
    split at h
    · cases h
    · cases h
      exact mem_set (mem_of_lookup hlookup) _ domain'

theorem mem_changeUserName {new_name : String}
    (h : changeUserName db name domain new_name = .ok (db', returned)) (domain' : String) :
    domain' ∈ db'.mem ↔ domain' ∈ db.mem := by
  unfold changeUserName at h
  split at h
  · cases h
  · split at h
    · cases h
    · next users hlookup =>
      split at h
      · cases h
      · cases h
      · cases h
        exact mem_set (mem_of_lookup hlookup) _ domain'

theorem mem_changeUserKey {pubkey : String}
    (h : changeUserKey db name domain pubkey = .ok (db', returned)) (domain' : String) :
    domain' ∈ db'.mem ↔ domain' ∈ db.mem := by
  unfold changeUserKey at h
  split at h
  · cases h
  · next users hlookup =>
    split at h
    · cases h
    · cases h
      exact mem_set (mem_of_lookup hlookup) _ domain'

theorem mem_changeUserDomain {new_domain : String}
    (h : changeUserDomain db name domain new_domain = .ok (db', returned)) (domain' : String) :
    domain' ∈ db'.mem ↔ domain' ∈ db.mem := by
  unfold changeUserDomain at h
  split at h
  · cases h
  · split at h
    · cases h
    · cases h
    · next users new_users hlookup hnew =>
      split at h
      · cases h
      · cases h
      · cases h
        have hset := mem_set (mem_of_lookup hnew)
        rw [mem_set ((hset _ _).mpr (mem_of_lookup hlookup))]
        exact hset _ domain'

end Users

/-- A domain is added to the tables and to what is to be stored. -/
theorem Agrees.add (h : Agrees s) (db : Db) (hdb : db.mem = s.db.mem) (domain : String)
    (users : Users) (d : Domain) :
    Agrees ⟨db.set domain users, Function.update s.contract domain (some d)⟩ := by
  intro domain'
  refine (AList.mem_insert _).trans ?_
  change _ ↔ (Function.update s.contract domain _ domain').isSome
  rw [hdb]
  by_cases hd : domain' = domain
  · rw [hd, Function.update_self]
    exact ⟨fun _ => rfl, fun _ => .inl rfl⟩
  · rw [Function.update_of_ne hd]
    exact ⟨fun hmem => (h domain').mp (hmem.resolve_left hd), fun hsome =>
      .inr ((h domain').mpr hsome)⟩

/-- A domain is taken out. -/
theorem Agrees.erase (h : Agrees s) (domain : String) :
    Agrees ⟨{ s.db with mem := s.db.mem.erase domain }, Function.update s.contract domain none⟩ := by
  intro domain'
  refine AList.mem_erase.trans ?_
  change _ ↔ (Function.update s.contract domain none domain').isSome
  by_cases hd : domain' = domain
  · rw [hd, Function.update_self]
    exact ⟨fun hmem => absurd rfl hmem.1, nofun⟩
  · rw [Function.update_of_ne hd]
    exact ⟨fun hmem => (h domain').mp hmem.2, fun hsome => ⟨hd, (h domain').mpr hsome⟩⟩

/-- What an operation keeps. -/
theorem Agrees.step (s : State) (op : Op) (h : Agrees s) : Agrees (step s op) := by
  unfold TextDb.step
  split
  · exact h
  · next db returned happly =>
    cases op with
    | addUser name domain pubkey priv =>
      exact h.same (mem_addUser happly) (isSome_modify _ _ _)
    | delUser name domain => exact h.same (mem_delUser happly) (isSome_modify _ _ _)
    | changeUserName name domain new_name =>
      exact h.same (mem_changeUserName happly) (isSome_modify _ _ _)
    | changeUserKey name domain pubkey =>
      exact h.same (mem_changeUserKey happly) (isSome_modify _ _ _)
    | changeUserDomain name domain new_domain =>
      exact h.same (mem_changeUserDomain happly) fun _ =>
        (isSome_modify _ _ _ _).trans (isSome_modify _ _ _ _)
    | addDomain domain caseInsensitive =>
      change TextDb.addDomain s.db domain caseInsensitive = .ok (db, returned) at happly
      unfold TextDb.addDomain at happly
      split at happly
      · cases happly
      · cases happly
        exact h.add _ rfl domain _ _
    | delDomain domain =>
      change TextDb.delDomain s.db domain = .ok (db, returned) at happly
      unfold TextDb.delDomain at happly
      split at happly
      · cases happly
      · cases happly
        exact h.erase domain
    | changeDomainName domain new_domain =>
      change TextDb.changeDomainName s.db domain new_domain = .ok (db, returned) at happly
      unfold TextDb.changeDomainName at happly
      split at happly
      · cases happly
      · split at happly
        · cases happly
        · next users hlookup =>
          split at happly
          · cases happly
            exact h.move hlookup _ rfl ∅
          · split at happly
            · cases happly
            · split at happly
              · cases happly
              · cases happly
                exact h.move hlookup _ rfl _
    | changeDomainSensitivity domain caseInsensitive =>
      change TextDb.changeDomainSensitivity s.db domain caseInsensitive =
        .ok (db, returned) at happly
      unfold TextDb.changeDomainSensitivity at happly
      split at happly
      · cases happly
      · cases happly
        exact h.same (fun _ => Iff.rfl) (isSome_modify _ _ _)

theorem agrees_init : Agrees State.init := fun domain =>
  ⟨fun h => absurd h (AList.notMem_empty domain), fun h => absurd h Bool.false_ne_true⟩

theorem agrees_after (ops : List Op) : Agrees (after ops) := run_inv Agrees.step agrees_init ops

/-! ## What is reproduced -/

theorem call_of_not_global {lua : Lua} {f : List Char} (hglobal : lua.globals f = none) (l : Loaded)
    (args : List (List Char)) : call lua l (f, args) = none := by
  unfold call
  split
  · next heq =>
    cases heq
    rw [hglobal]
    rfl
  · rfl

/-- A script that begins with a call of a name which is no global variable has an error. -/
theorem exec_addDomain {lua : Lua} (hglobal : lua.globals addDomainName = none) (text : List Char) :
    exec lua (addDomainName ++ ' ' :: text) = none := by
  have hlex (fuel : Nat) : lex (fuel + 1) (addDomainName ++ ' ' :: text) =
      (lex fuel (' ' :: text)).map (.name addDomainName :: ·) := rfl
  unfold exec parse
  rw [hlex]
  cases lex (addDomainName ++ ' ' :: text).length (' ' :: text) with
  | none => rfl
  | some tokens =>
    change Option.bind (if _ then some ((addDomainName, (calls tokens).1) :: (calls tokens).2)
      else none) _ = none
    split
    · change ((call lua _ (addDomainName, (calls tokens).1)).bind fun l => _) = none
      rw [call_of_not_global hglobal]
      rfl
    · rfl

/-- The file gives back what is to be stored exactly when there is no domain: where there is one,
the script calls `__add_domain`, which is a field of `core` and no global variable. -/
theorem reproduced_iff (ops : List Op) (domains : List (String × List (String × String)))
    (h : Pairs (after ops).db domains) :
    Reproduces (writeDb (after ops).db domains) (after ops).contract ↔
      ∀ domain, (after ops).contract domain = none := by
  constructor
  · intro hrep domain
    cases domains with
    | nil =>
      have hkeys : (after ops).db.mem.keys = [] := h.perm.nil_eq.symm
      refine Option.isNone_iff_eq_none.mp ?_
      rw [← Option.not_isSome, Bool.not_eq_true', Bool.eq_false_iff]
      intro hsome
      have hmem := AList.mem_keys.mp ((agrees_after ops domain).mpr hsome)
      rw [hkeys] at hmem
      exact absurd hmem List.not_mem_nil
    | cons d domains =>
      have hfile : ∃ text, writeDb (after ops).db (d :: domains) = addDomainName ++ ' ' :: text :=
        ⟨_, by rw [writeDb, List.flatMap_cons, domainLines, List.append_assoc, List.cons_append]⟩
      obtain ⟨text, htext⟩ := hfile
      unfold Reproduces at hrep
      rw [htext, exec_addDomain rfl] at hrep
      exact absurd hrep nofun
  · intro hnone
    have hkeys : (after ops).db.mem.keys = [] := by
      refine List.eq_nil_iff_forall_not_mem.mpr fun domain hmem => ?_
      have hsome := (agrees_after ops domain).mp (AList.mem_keys.mpr hmem)
      rw [hnone] at hsome
      exact absurd hsome nofun
    have hdomains : domains = [] :=
      List.map_eq_nil_iff.mp (List.perm_nil.mp (hkeys ▸ h.perm))
    rw [hdomains, (funext hnone : (after ops).contract = fun _ => none)]
    rfl

theorem reproduced_iff_deleted :
    Reproduces (writeDb (after [.addDomain "d" true, .delDomain "d"]).db [])
      (after [.addDomain "d" true, .delDomain "d"]).contract ↔
        ∀ domain, (after [.addDomain "d" true, .delDomain "d"]).contract domain = none := by
  refine reproduced_iff [.addDomain "d" true, .delDomain "d"] [] ⟨?_, fun _ h => ?_⟩
  · exact List.Perm.nil
  · exact absurd h List.not_mem_nil

/-- A domain is not there any more when the file has been executed. -/
theorem domain_not_reproduced :
    ¬ ∀ (ops : List Op) (domains : List (String × List (String × String))),
      (∀ op ∈ ops, op.QuoteFree) → Pairs (after ops).db domains →
        Reproduces (writeDb (after ops).db domains) (after ops).contract := by
  intro h
  have hquote : ∀ op ∈ [Op.addDomain "d" false], op.QuoteFree := by
    intro op hop s hs
    cases List.mem_singleton.mp hop
    cases List.mem_singleton.mp hs
    decide
  have hpairs : Pairs (after [.addDomain "d" false]).db [("d", [])] := by
    refine ⟨List.Perm.refl _, fun d hd => ?_⟩
    cases List.mem_singleton.mp hd
    exact ⟨∅, rfl, List.Perm.nil⟩
  have hrep := h [.addDomain "d" false] [("d", [])] hquote hpairs
  unfold Reproduces at hrep
  have hnone : exec (defineFunctions fresh)
      (writeDb (after [.addDomain "d" false]).db [("d", [])]) = none := exec_addDomain rfl _
  rw [hnone] at hrep
  exact absurd hrep nofun

end TextDb

end Zuckerserv
