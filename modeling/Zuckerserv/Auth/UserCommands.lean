import Zuckerserv.Auth.UserEntries

/-!
# The commands of the front end

Each command keeps the table in step with the database, in a state in which it is sound.

* `Good` — what is to be said of a command.
* `good_addUser`, … `good_change_domain_sensitivity` — one lemma for each command.
* `good_apply` — what one command does.
-/

namespace Zuckerserv

namespace UserTable

open Machine

variable {t : Table} {c : Content} {name domain : String} {d : Domain} {u : User} {b : Backend}

/-! ## One command -/

variable {content : b.State → Content} {f g : Front b} {db : b.State}

/-- What is to be said of a command: the table has what is stored afterwards, there is no run-time
error, and where the command reports a failure nothing has changed. -/
structure Good (content : b.State → Content) (f : Front b) (result : Front b × Outcome) : Prop where
  sync : InSync content result.1
  failed : ∀ message, result.2 = .failed message →
    content result.1.db = content f.db ∧ result.1.users = f.users
  no_error : result.2 ≠ .error

theorem Good.refused (h : InSync content f) (message : String) :
    Good content f (f, .failed message) := ⟨h, fun _ _ => ⟨rfl, rfl⟩, nofun⟩

theorem Good.done (h : InSync content g) : Good content f (g, .done) := ⟨h, nofun, nofun⟩

/-- The database reports an error. -/
theorem Good.backend (hm : Meets b content) (h : InSync content f) {call : Call} {text : String}
    (hcall : b.call f.db call = (db, .err text)) (message : String) :
    Good content f ({ f with db := db }, .failed message) := by
  have hsame : content db = content f.db := by
    have := hm.failed f.db call
    rw [hcall] at this
    exact this rfl
  refine ⟨⟨?_, ?_, ?_⟩, fun _ _ => ⟨hsame, rfl⟩, nofun⟩
  · rw [hsame]
    exact h.domains
  · rw [hsame]
    exact h.caseInsensitive
  · rw [hsame]
    exact h.found

theorem accepts_of_ne {reply : Reply} (h : ∀ message, reply = .err message → False) :
    reply.accepts = true := by
  cases reply with
  | err message => exact absurd rfl (h message)
  | nothing => rfl
  | user u => rfl
  | users users => rfl

/-- The database has done what is documented. -/
theorem Meets.of_call (hm : Meets b content) {s : b.State} {call : Call} {reply : Reply}
    (hcall : b.call s call = (db, reply)) (hreply : reply.accepts = true) :
    content db = documented (content s) call := by
  have := hm.done s call
  rw [hcall] at this
  exact this hreply

theorem accepts_of_call {s : b.State} {call : Call} {reply : Reply}
    (hcall : b.call s call = (db, reply)) (hreply : reply.accepts = true) :
    (b.call s call).2.accepts = true := by
  rw [hcall]
  exact hreply

/-- The user that a call returns is the one that is stored now. -/
theorem Meets.of_user (hm : Meets b content) {s : b.State} {call : Call}
    (hcall : b.call s call = (db, .user u)) (hchanged : call.changed = some (name, domain)) :
    (documented (content s) call).user name domain = some u := by
  obtain ⟨v, hv, huser⟩ := hm.changed s call name domain hchanged (accepts_of_call hcall rfl)
  rw [hcall] at hv
  cases hv
  exact huser

/-- The users that a call returns are those that were stored. -/
theorem Meets.of_users (hm : Meets b content) {s : b.State} {call : Call}
    {users : List (String × User)} (hcall : b.call s call = (db, .users users))
    (hlisted : call.listed = some domain) (name : String) (u : User) :
    (name, u) ∈ users ↔ (content s).user name domain = some u := by
  obtain ⟨users', husers, hmem⟩ := hm.listed s call domain hlisted (accepts_of_call hcall rfl)
  rw [hcall] at husers
  cases husers
  exact hmem name u

/-- A call that returns a user returns nothing else. -/
theorem Meets.isUser_reply (hm : Meets b content) {s : b.State} {call : Call} {reply : Reply}
    (hcall : b.call s call = (db, reply)) (hchanged : call.changed = some (name, domain))
    (herr : ∀ message, reply = .err message → False) : ∃ u, reply = .user u := by
  have hacc := accepts_of_ne herr
  obtain ⟨u, hu, -⟩ := hm.changed s call name domain hchanged (accepts_of_call hcall hacc)
  rw [hcall] at hu
  exact ⟨u, hu⟩

/-- A call that returns users returns nothing else. -/
theorem Meets.is_users_reply (hm : Meets b content) {s : b.State} {call : Call} {reply : Reply}
    (hcall : b.call s call = (db, reply)) (hlisted : call.listed = some domain)
    (herr : ∀ message, reply = .err message → False) : ∃ users, reply = .users users := by
  have hacc := accepts_of_ne herr
  obtain ⟨users, husers, -⟩ := hm.listed s call domain hlisted (accepts_of_call hcall hacc)
  rw [hcall] at husers
  exact ⟨users, husers⟩

/-- The domains that are stored, and which of them are not case-sensitive. -/
def Content.settings (c : Content) (domain : String) : Option Bool :=
  (c domain).map (·.caseInsensitive)

theorem Content.settings_set (c : Content) (name domain : String) (user : Option User)
    (domain' : String) : (c.set name domain user).settings domain' = c.settings domain' := by
  unfold Content.settings
  by_cases hd : domain' = domain
  · rw [hd, Content.set, Function.update_self, Option.map_map]
    rfl
  · rw [Content.set_of_ne hd]

/-- A command that changes the users alone. -/
theorem InSync.of_users (h : InSync content f) {c : Content} (hdb : content db = c)
    (hsettings : ∀ domain, c.settings domain = (content f.db).settings domain) {users : Table}
    (hfound : Holds users c) : InSync content { f with db := db, users := users } where
  domains domain := by
    rw [hdb, h.domains, ← Option.isSome_map (f := Domain.caseInsensitive) (x := c domain),
      ← Option.isSome_map (f := Domain.caseInsensitive)]
    exact congrArg Option.isSome (hsettings domain).symm
  caseInsensitive domain := by
    have hany (o : Option Domain) : o.any (·.caseInsensitive) =
        (o.map (·.caseInsensitive)).any id := by
      cases o <;> rfl
    rw [hdb, h.caseInsensitive, hany, hany]
    exact congrArg (Option.any id) (hsettings domain).symm
  found := by
    rw [hdb]
    exact hfound

/-- The domain is there. -/
theorem InSync.there (h : InSync content f) (hdomain : ¬ f.domains domain = false) :
    ∃ d, content f.db domain = some d ∧ f.caseInsensitiveDomains domain = d.caseInsensitive := by
  have hsome := h.domains domain
  rw [Bool.not_eq_false _ |>.mp hdomain] at hsome
  obtain ⟨d, hd⟩ := Option.isSome_iff_exists.mp hsome.symm
  refine ⟨d, hd, ?_⟩
  rw [h.caseInsensitive, hd]
  rfl

/-- A domain that the front end has not got is not stored. -/
theorem InSync.not_there (h : InSync content f) (hdomain : ¬ f.domains domain = true) :
    content f.db domain = none := by
  rw [h.domains] at hdomain
  exact Option.not_isSome_iff_eq_none.mp hdomain

theorem Meets.user_eq_none (hm : Meets b content) {s : b.State}
    (huser : ¬ b.isUser s name domain = true) : (content s).user name domain = none := by
  rw [hm.isUser] at huser
  exact Option.not_isSome_iff_eq_none.mp huser

theorem Content.user_eq (hd : c domain = some d) (name : String) :
    c.user name domain = d.users name := by
  rw [Content.user, hd]
  rfl

theorem Content.user_set (hd : c domain = some d) (name : String) (user : Option User) :
    (c.set name domain user).user name domain = user := by
  rw [Content.user_eq (Content.set_self hd user), Domain.set_self]

theorem good_addUser (hm : Meets b content) (h : InSync content f)
    (name domain pubkey priv : String) (hsound : Sound f (.addUser name domain pubkey priv)) :
    Distinct (content (addUser f name domain pubkey priv).1.db) →
      Good content f (addUser f name domain pubkey priv) := by
  unfold addUser
  split
  · exact fun _ => .refused h _
  · split
    · exact fun _ => .refused h _
    · split
      · exact fun _ => .refused h _
      · next hdomain =>
        split
        · exact fun _ => .refused h _
        · next huser =>
          split
          · next hcall => exact fun _ => .backend hm h hcall _
          · next db reply herr hcall =>
            intro hdist
            have hacc := accepts_of_ne herr
            have hdb := hm.of_call hcall hacc
            obtain ⟨d, hd, hci⟩ := h.there hdomain
            change Distinct (content db) at hdist
            rw [hdb] at hdist
            have hnone : d.users name = none :=
              (Content.user_eq hd name).symm.trans (hm.user_eq_none huser)
            obtain ⟨hfree, hfound⟩ := Holds.put_new h.found hd hnone hdist
            refine .done (h.of_users hdb (Content.settings_set _ _ _ _) ?_)
            have hlower : f.caseInsensitiveDomains domain = true → lower name = name :=
              hsound (accepts_of_call hcall hacc)
            have husers : (if f.caseInsensitiveDomains domain = true then
                adduser f.users (lower name) domain ⟨pubkey, priv⟩
                else adduser f.users name domain ⟨pubkey, priv⟩) =
                  put f.users d.caseInsensitive name domain (some ⟨pubkey, priv⟩) := by
              have hadd := adduser_of_none (hfree name (.inl rfl)) ⟨pubkey, priv⟩
              rw [← hci]
              cases hc : f.caseInsensitiveDomains domain with
              | false => rw [if_neg Bool.false_ne_true, hadd, put_false]
              | true => rw [if_pos rfl, put_true, hlower hc, hadd, Function.update_idem]
            rw [husers]
            exact hfound

theorem good_delUser (hm : Meets b content) (h : InSync content f) (name domain : String)
    (hdist : Distinct (content f.db)) : Good content f (delUser f name domain) := by
  unfold delUser
  split
  · exact .refused h _
  · next hdomain =>
    split
    · exact .refused h _
    · next huser =>
      split
      · next hcall => exact .backend hm h hcall _
      · next db reply herr hcall =>
        have hacc := accepts_of_ne herr
        obtain ⟨d, hd, hci⟩ := h.there hdomain
        rw [hm.isUser, Content.user_eq hd, Bool.not_eq_false] at huser
        refine .done (h.of_users (hm.of_call hcall hacc) (Content.settings_set _ _ _ _) ?_)
        rw [remove_eq_put, hci]
        exact Holds.put_of_user h.found hd huser hdist none

theorem good_changeUserName (hm : Meets b content) (h : InSync content f)
    (name domain new_name : String) (hsound : Sound f (.changeUserName name domain new_name))
    (hdist : Distinct (content f.db)) :
    Distinct (content (changeUserName f name domain new_name).1.db) →
      Good content f (changeUserName f name domain new_name) := by
  unfold changeUserName
  split
  · exact fun _ => .refused h _
  · next hnames =>
    split
    · exact fun _ => .refused h _
    · next hdomain =>
      split
      · exact fun _ => .refused h _
      · next huser =>
        split
        · exact fun _ => .refused h _
        · next hnew =>
          split
          · next hcall => exact fun _ => .backend hm h hcall _
          · next db u hcall =>
            intro hdist'
            change Distinct (content db) at hdist'
            have hdb := hm.of_call hcall rfl
            obtain ⟨d, hd, hci⟩ := h.there hdomain
            rw [hm.isUser, Content.user_eq hd, Bool.not_eq_false] at huser
            have hfound := Holds.put_of_user h.found hd huser hdist none
            have hd' : (content f.db).set name domain none domain = some (d.set name none) :=
              Content.set_self hd none
            have hu : (content f.db).user name domain = some u :=
              (Content.user_set hd' new_name _).symm.trans (hm.of_user hcall rfl)
            rw [hdb] at hdist'
            change Distinct (((content f.db).set name domain none).set new_name domain _) at hdist'
            rw [hu] at hdist'
            have hnone : (d.set name none).users new_name = none := by
              rw [Domain.set_of_ne (Ne.symm hnames), ← Content.user_eq hd]
              exact hm.user_eq_none hnew
            obtain ⟨hfree, hfound'⟩ := hfound.put_new hd' hnone hdist'
            refine .done (h.of_users hdb (fun domain' => ?_) ?_)
            · exact (Content.settings_set _ _ _ _ _).trans (Content.settings_set _ _ _ _ _)
            · have hne : f.caseInsensitiveDomains domain = true →
                  (lower new_name, domain) ≠ (name, domain) := fun hc heq =>
                hsound (accepts_of_call hcall rfl) hc (Prod.mk.inj heq).1
              rw [hci] at hne ⊢
              rw [moved_eq_put f.users d.caseInsensitive name domain new_name domain u hne hfree]
              change Holds _ (((content f.db).set name domain none).set new_name domain _)
              rw [hu]
              exact hfound'
          · next db reply herr hne hcall =>
            obtain ⟨u, rfl⟩ := hm.isUser_reply hcall rfl herr
            exact absurd rfl (hne u)

/-- A command that changes the key or the privilege of a user. -/
theorem good_changeUser (hm : Meets b content) (h : InSync content f) (command : String)
    (call : Call) (name domain : String) (hchanged : call.changed = some (name, domain))
    (user : Option User)
    (hcall : documented (content f.db) call = (content f.db).set name domain user)
    (hsound : (b.call f.db call).2.accepts = true → b.isUser f.db name domain = true →
      f.caseInsensitiveDomains domain = false)
    (hdist : Distinct (content f.db)) :
    Good content f (changeUser command call f name domain) := by
  unfold changeUser
  split
  · exact .refused h _
  · next hdomain =>
    split
    · exact .refused h _
    · next huser =>
      rw [Bool.not_eq_false] at huser
      split
      · next hreply => exact .backend hm h hreply _
      · next db u hreply =>
        have hci' := hsound (accepts_of_call hreply rfl) huser
        obtain ⟨d, hd, hci⟩ := h.there hdomain
        rw [if_neg (hci' ▸ Bool.false_ne_true)]
        rw [hm.isUser, Content.user_eq hd] at huser
        have hdb := hm.of_call hreply rfl
        rw [hcall] at hdb
        have hu : user = some u := by
          rw [← Content.user_set hd name user, ← hcall]
          exact hm.of_user hreply hchanged
        have hfound := Holds.put_of_user h.found hd huser hdist user
        refine .done (h.of_users hdb (Content.settings_set _ _ _ _) ?_)
        rw [← hci, hci', put_false, hu] at hfound
        rw [deleteuser, adduser_of_none (Function.update_self ..), Function.update_idem, hu]
        exact hfound
      · next db reply herr hne hreply =>
        obtain ⟨u, rfl⟩ := hm.isUser_reply hreply hchanged herr
        exact absurd rfl (hne u)

theorem put_congr {ci ci' : Bool} (h : ∀ key, Key ci name key ↔ Key ci' name key) (t : Table)
    (domain : String) (user : Option User) :
    put t ci name domain user = put t ci' name domain user := by
  funext k
  unfold UserTable.put
  exact if_congr (and_congr_right fun _ => h k.1) rfl rfl

theorem good_changeUserDomain (hm : Meets b content) (h : InSync content f)
    (name domain new_domain : String)
    (hsound : Sound f (.changeUserDomain name domain new_domain))
    (hdist : Distinct (content f.db)) :
    Distinct (content (changeUserDomain f name domain new_domain).1.db) →
      Good content f (changeUserDomain f name domain new_domain) := by
  unfold changeUserDomain
  split
  · exact fun _ => .refused h _
  · next hdomains =>
    split
    · exact fun _ => .refused h _
    · next hdomain =>
      split
      · exact fun _ => .refused h _
      · next hnew_domain =>
        split
        · exact fun _ => .refused h _
        · next huser =>
          split
          · exact fun _ => .refused h _
          · next hnew =>
            split
            · next hcall => exact fun _ => .backend hm h hcall _
            · next db u hcall =>
              intro hdist'
              change Distinct (content db) at hdist'
              have hdb := hm.of_call hcall rfl
              obtain ⟨d, hd, hci⟩ := h.there hdomain
              obtain ⟨e, he, hci'⟩ := h.there hnew_domain
              rw [hm.isUser, Content.user_eq hd, Bool.not_eq_false] at huser
              have hnone : e.users name = none :=
                (Content.user_eq he name).symm.trans (hm.user_eq_none hnew)
              have hfound := Holds.put_of_user h.found hd huser hdist none
              have he' : (content f.db).set name domain none new_domain = some e :=
                (Content.set_of_ne (Ne.symm hdomains) none).trans he
              have hu : (content f.db).user name domain = some u :=
                (Content.user_set he' name _).symm.trans (hm.of_user hcall rfl)
              rw [hdb] at hdist'
              change Distinct
                (((content f.db).set name domain none).set name new_domain _) at hdist'
              rw [hu] at hdist'
              obtain ⟨hfree, hfound'⟩ := hfound.put_new he' hnone hdist'
              have hkeys (key : String) :
                  Key d.caseInsensitive name key ↔ Key e.caseInsensitive name key := by
                rcases hsound (accepts_of_call hcall rfl) with hsame | hlower
                · rw [← hci, ← hci', hsame]
                · exact key_iff_of_lower hlower _ _ key
              refine .done (h.of_users hdb (fun domain' => ?_) ?_)
              · exact (Content.settings_set _ _ _ _ _).trans (Content.settings_set _ _ _ _ _)
              · rw [hci, moved_eq_put f.users d.caseInsensitive name domain name new_domain u
                  (fun _ heq => hdomains (Prod.mk.inj heq).2.symm)
                  fun key hkey => hfree key ((hkeys key).mp hkey), put_congr hkeys (put _ _ _ _ _)]
                change Holds _ (((content f.db).set name domain none).set name new_domain _)
                rw [hu]
                exact hfound'
            · next db reply herr hne hcall =>
              obtain ⟨u, rfl⟩ := hm.isUser_reply hcall rfl herr
              exact absurd rfl (hne u)

/-- The users that are found in a domain depend on the domain alone. -/
theorem found_congr {c c' : Content} (h : c' domain = c domain) (key : String) (u : User) :
    Found c' key domain u ↔ Found c key domain u := by
  unfold Found
  rw [h]

/-- In a domain that has no users none is found. -/
theorem not_found (h : ∀ name, c.user name domain = none) (key : String) (u : User) :
    ¬ Found c key domain u := by
  rintro ⟨d, name, hd, hu, -⟩
  exact absurd (hu.symm.trans ((Content.user_eq hd name).symm.trans (h name))) nofun

theorem user_of_none (h : c domain = none) (name : String) : c.user name domain = none := by
  rw [Content.user, h]
  rfl

theorem good_addDomain (hm : Meets b content) (h : InSync content f) (domain : String)
    (caseInsensitive : Option String) : Good content f (addDomain f domain caseInsensitive) := by
  unfold addDomain
  split
  · exact .refused h _
  · next hdomain =>
    dsimp only
    split
    · next hcall => exact .backend hm h hcall _
    · next db reply herr hcall =>
      have hdb : content db = Function.update (content f.db) domain (some ⟨_, fun _ => none⟩) :=
        hm.of_call hcall (accepts_of_ne herr)
      have hnone := h.not_there hdomain
      refine .done ⟨fun domain' => ?_, fun domain' => ?_, fun key domain' u => ?_⟩
      · dsimp only
        rw [hdb]
        by_cases hd : domain' = domain
        · rw [hd, Function.update_self, Function.update_self]
          rfl
        · rw [Function.update_of_ne hd, Function.update_of_ne hd]
          exact h.domains domain'
      · dsimp only
        rw [hdb]
        by_cases hd : domain' = domain
        · rw [hd, Function.update_self]
          split
          · next hci =>
            rw [Function.update_self]
            exact hci.symm
          · next hci =>
            rw [h.caseInsensitive, hnone]
            exact (Bool.eq_false_iff.mpr hci).symm
        · rw [Function.update_of_ne hd, ← h.caseInsensitive]
          split
          · exact Function.update_of_ne hd _ _
          · rfl
      · refine (h.found key domain' u).trans ?_
        by_cases hd : domain' = domain
        · subst hd
          refine iff_of_false (not_found (user_of_none hnone) key u)
            (not_found (fun name => ?_) key u)
          rw [hdb, Content.user, Function.update_self]
          rfl
        · refine (found_congr ?_ key u).symm
          rw [hdb]
          exact Function.update_of_ne hd _ _

/-- What an entry has stays so in each step, and some step gives it. -/
theorem foldl_at {α : Type} {g : Table → α → Table} {k : String × String} (P : Option User → Prop)
    (hkeep : ∀ t x, P (t k) → P (g t x k)) (us : List α) (t : Table)
    (h : P (t k) ∨ ∃ x ∈ us, ∀ t, P (g t x k)) : P (us.foldl g t k) := by
  induction us generalizing t with
  | nil =>
    rcases h with h | ⟨x, hx, -⟩
    · exact h
    · exact absurd hx List.not_mem_nil
  | cons y us ih =>
    refine ih (g t y) ?_
    rcases h with h | ⟨x, hx, hg⟩
    · exact .inl (hkeep t y h)
    · rcases List.mem_cons.mp hx with rfl | hx
      · exact .inl (hg t)
      · exact .inr ⟨x, hx, hg⟩

theorem foldl_frame {g : Table → String × User → Table} {k : String × String}
    (hframe : ∀ t x, g t x k = t k) (us : List (String × User)) (t : Table) :
    us.foldl g t k = t k := by
  induction us generalizing t with
  | nil => rfl
  | cons y us ih => exact (ih (g t y)).trans (hframe t y)

theorem deleteuser_keeps (t : Table) (name domain : String) {k : String × String}
    (h : t k = none) : deleteuser t name domain k = none := by
  unfold deleteuser
  by_cases hk : k = (name, domain)
  · rw [hk, Function.update_self]
  · rw [Function.update_of_ne hk]
    exact h

theorem deleteLowered_keeps (t : Table) (name domain : String) {k : String × String}
    (h : t k = none) : deleteLowered t name domain k = none := by
  unfold deleteLowered
  split
  · exact h
  · exact deleteuser_keeps t (lower name) domain h

theorem deleteuser_other (t : Table) (name domain key : String) {domain' : String}
    (hne : domain' ≠ domain) : deleteuser t name domain (key, domain') = t (key, domain') :=
  Function.update_of_ne (fun heq => hne (Prod.mk.inj heq).2) _ _

theorem deleteLowered_other (t : Table) (name domain key : String) {domain' : String}
    (hne : domain' ≠ domain) : deleteLowered t name domain (key, domain') = t (key, domain') := by
  unfold deleteLowered
  split
  · rfl
  · exact deleteuser_other t (lower name) domain key hne

/-- When the users of a domain have been deleted, under both names, no entry is left. -/
theorem deleted_in (h : Holds t c) (hd : c domain = some d) {users : List (String × User)}
    (hlisted : ∀ name u, (name, u) ∈ users ↔ c.user name domain = some u) (key : String) :
    users.foldl (fun t user => deleteuser t user.1 domain)
      (if d.caseInsensitive = true then
        users.foldl (fun t user => deleteLowered t user.1 domain) t
      else t) (key, domain) = none := by
  have hkeep (t : Table) (x : String × User) (ht : t (key, domain) = none) :
      deleteLowered t x.1 domain (key, domain) = none := deleteLowered_keeps t x.1 domain ht
  refine foldl_at (· = none) (fun t x => deleteuser_keeps t x.1 domain) users _ ?_
  cases hold : t (key, domain) with
  | none =>
    refine .inl ?_
    split
    · exact foldl_at (· = none) hkeep users t (.inl hold)
    · exact hold
  | some v =>
    obtain ⟨d', name, hd', hu, hkey⟩ := (h key domain v).mp hold
    cases Option.some.inj (hd.symm.trans hd')
    have hmem := (hlisted name v).mpr ((Content.user_eq hd name).trans hu)
    by_cases hname : key = name
    · refine .inr ⟨(name, v), hmem, fun t => ?_⟩
      rw [hname]
      exact Function.update_self ..
    · obtain ⟨hci, hlower⟩ := hkey.resolve_left hname
      refine .inl ?_
      rw [if_pos hci]
      refine foldl_at (· = none) hkeep users t (.inr ⟨(name, v), hmem, fun t => ?_⟩)
      rw [deleteLowered, if_neg fun heq => hname (hlower.trans heq.symm), hlower]
      exact Function.update_self ..

/-- The entries of other domains are left. -/
theorem deleted_other (t : Table) (ci : Bool) (users : List (String × User)) (key : String)
    {domain' : String} (hne : domain' ≠ domain) :
    users.foldl (fun t user => deleteuser t user.1 domain)
      (if ci = true then users.foldl (fun t user => deleteLowered t user.1 domain) t else t)
      (key, domain') = t (key, domain') := by
  rw [foldl_frame (fun t x => deleteuser_other t x.1 domain key hne)]
  split
  · exact foldl_frame (fun t x => deleteLowered_other t x.1 domain key hne) users t
  · rfl

theorem good_delDomain (hm : Meets b content) (h : InSync content f) (domain : String) :
    Good content f (delDomain f domain) := by
  unfold delDomain
  split
  · exact .refused h _
  · next hdomain =>
    split
    · next hcall => exact .backend hm h hcall _
    · next db users hcall =>
      obtain ⟨d, hd, hci⟩ := h.there hdomain
      have hdb : content db = Function.update (content f.db) domain none := hm.of_call hcall rfl
      have hlisted := hm.of_users hcall rfl
      refine .done ⟨fun domain' => ?_, fun domain' => ?_, fun key domain' u => ?_⟩
      · dsimp only
        rw [hdb]
        by_cases hd' : domain' = domain
        · rw [hd', Function.update_self, Function.update_self]
          rfl
        · rw [Function.update_of_ne hd', Function.update_of_ne hd']
          exact h.domains domain'
      · dsimp only
        rw [hdb]
        by_cases hd' : domain' = domain
        · rw [hd', Function.update_self, Function.update_self]
          rfl
        · rw [Function.update_of_ne hd', Function.update_of_ne hd']
          exact h.caseInsensitive domain'
      · dsimp only
        rw [hdb]
        by_cases hd' : domain' = domain
        · subst hd'
          rw [hci, deleted_in h.found hd hlisted key]
          exact iff_of_false nofun (not_found (user_of_none (Function.update_self ..)) key u)
        · rw [deleted_other f.users _ users key hd']
          refine (h.found key domain' u).trans (found_congr ?_ key u).symm
          exact Function.update_of_ne hd' _ _
    · next db reply herr hne hcall =>
      obtain ⟨users, rfl⟩ := hm.is_users_reply hcall rfl herr
      exact absurd rfl (hne users)

/-- The database lists no users where there are none. -/
theorem Meets.no_users (hm : Meets b content) {s : b.State} {call : Call}
    {users : List (String × User)} (hcall : b.call s call = (db, .users users))
    (hlisted : call.listed = some domain) (hnone : ∀ name, b.isUser s name domain = false) :
    users = [] := by
  refine List.eq_nil_iff_forall_not_mem.mpr fun x hx => ?_
  have huser := (hm.of_users hcall hlisted x.1 x.2).mp hx
  have hfalse := hnone x.1
  rw [hm.isUser, huser] at hfalse
  exact absurd hfalse nofun

theorem good_changeDomainName (hm : Meets b content) (h : InSync content f)
    (domain new_domain : String) (hsound : Sound f (.changeDomainName domain new_domain)) :
    Good content f (changeDomainName f domain new_domain) := by
  unfold changeDomainName
  split
  · exact .refused h _
  · next hdomains =>
    split
    · exact .refused h _
    · next hdomain =>
      split
      · exact .refused h _
      · next hnew =>
        have hnew' : f.domains new_domain = false := Bool.eq_false_iff.mpr hnew
        split
        · next hcall => exact .backend hm h hcall _
        · next hcall =>
          have hnone := hsound (accepts_of_call hcall rfl) hnew'
          exact absurd (hm.no_users hcall rfl hnone) (List.cons_ne_nil _ _)
        · next db hcall =>
          obtain ⟨d, hd, hci⟩ := h.there hdomain
          have hdb : content db = Function.update (Function.update (content f.db) new_domain
              (content f.db domain)) domain none := hm.of_call hcall rfl
          have hempty (name : String) : (content f.db).user name domain = none :=
            hm.user_eq_none (Bool.eq_false_iff.mp (hsound (accepts_of_call hcall rfl) hnew' name))
          have hnone := h.not_there hnew
          refine .done ⟨fun domain' => ?_, fun domain' => ?_, fun key domain' u => ?_⟩
          · dsimp only
            rw [hdb]
            by_cases hn : domain' = new_domain
            · rw [hn, Function.update_self, Function.update_of_ne (Ne.symm hdomains),
                Function.update_self, hd]
              rfl
            · rw [Function.update_of_ne hn]
              by_cases hd' : domain' = domain
              · rw [hd', Function.update_self, Function.update_self]
                rfl
              · rw [Function.update_of_ne hd', Function.update_of_ne hd', Function.update_of_ne hn]
                exact h.domains domain'
          · dsimp only
            rw [hdb]
            by_cases hn : domain' = new_domain
            · rw [hn, Function.update_of_ne (Ne.symm hdomains), Function.update_self, hd]
              change _ = d.caseInsensitive
              rw [← hci]
              split
              · next htrue => rw [Function.update_self, htrue]
              · next hfalse =>
                rw [h.caseInsensitive, hnone]
                exact (Bool.eq_false_iff.mpr hfalse).symm
            · by_cases hd' : domain' = domain
              · rw [hd', Function.update_self]
                split
                · rw [Function.update_of_ne hdomains, Function.update_self]
                  rfl
                · next hfalse => exact Bool.eq_false_iff.mpr hfalse
              · rw [Function.update_of_ne hd', Function.update_of_ne hn, ← h.caseInsensitive]
                split
                · rw [Function.update_of_ne hn, Function.update_of_ne hd']
                · rfl
          · refine (h.found key domain' u).trans ?_
            dsimp only
            rw [hdb]
            by_cases hd' : domain' = domain
            · subst hd'
              exact iff_of_false (not_found hempty key u)
                (not_found (user_of_none (Function.update_self ..)) key u)
            · by_cases hn : domain' = new_domain
              · subst hn
                refine iff_of_false (not_found (user_of_none hnone) key u)
                  (not_found (fun name => ?_) key u)
                rw [Content.user, Function.update_of_ne hd', Function.update_self]
                exact hempty name
              · refine (found_congr ?_ key u).symm
                rw [Function.update_of_ne hd', Function.update_of_ne hn]
        · next db reply herr hcons hnil hcall =>
          obtain ⟨users, rfl⟩ := hm.is_users_reply hcall rfl herr
          cases users with
          | nil => exact absurd rfl hnil
          | cons x users => exact absurd rfl (hcons x.1 x.2 users)

theorem good_changeDomainSensitivity (hm : Meets b content) (h : InSync content f)
    (domain : String) (caseInsensitive : Option String)
    (hsound : Sound f (.changeDomainSensitivity domain caseInsensitive)) :
    Good content f (changeDomainSensitivity f domain caseInsensitive) := by
  unfold changeDomainSensitivity
  split
  · exact .refused h _
  · next hdomain =>
    split
    · exact .done h
    · next hchange =>
      split
      · next hcall => exact .backend hm h hcall _
      · next hcall =>
        have hnone := hsound (accepts_of_call hcall rfl) hchange
        exact absurd (hm.no_users hcall rfl hnone) (List.cons_ne_nil _ _)
      · next db hcall =>
        obtain ⟨d, hd, hci⟩ := h.there hdomain
        have hdb : content db = Function.update (content f.db) domain
            ((content f.db domain).map fun d =>
              { d with caseInsensitive := caseInsensitive.isSome }) := hm.of_call hcall rfl
        have hempty (name : String) : (content f.db).user name domain = none :=
          hm.user_eq_none (Bool.eq_false_iff.mp (hsound (accepts_of_call hcall rfl) hchange name))
        refine .done ⟨fun domain' => ?_, fun domain' => ?_, fun key domain' u => ?_⟩
        · dsimp only
          rw [hdb, h.domains]
          by_cases hd' : domain' = domain
          · rw [hd', Function.update_self, hd]
            rfl
          · rw [Function.update_of_ne hd']
        · dsimp only
          rw [hdb]
          by_cases hd' : domain' = domain
          · rw [hd', Function.update_self, Function.update_self, hd]
            rfl
          · rw [Function.update_of_ne hd', Function.update_of_ne hd']
            exact h.caseInsensitive domain'
        · refine (h.found key domain' u).trans ?_
          dsimp only
          rw [hdb]
          by_cases hd' : domain' = domain
          · subst hd'
            refine iff_of_false (not_found hempty key u) (not_found (fun name => ?_) key u)
            rw [Content.user, Function.update_self, hd]
            exact (Content.user_eq hd name).symm.trans (hempty name)
          · refine (found_congr ?_ key u).symm
            rw [Function.update_of_ne hd']
      · next db reply herr hcons hnil hcall =>
        obtain ⟨users, rfl⟩ := hm.is_users_reply hcall rfl herr
        cases users with
        | nil => exact absurd rfl hnil
        | cons x users => exact absurd rfl (hcons x.1 x.2 users)

/-- What one command does. -/
theorem good_apply (hm : Meets b content) (h : InSync content f) (command : Command)
    (hsound : Sound f command) (hdist : Distinct (content f.db))
    (hdist' : Distinct (content (step f command).db)) : Good content f (apply f command) := by
  cases command with
  | addUser name domain pubkey priv =>
    exact good_addUser hm h name domain pubkey priv hsound hdist'
  | delUser name domain => exact good_delUser hm h name domain hdist
  | changeUserName name domain new_name =>
    exact good_changeUserName hm h name domain new_name hsound hdist hdist'
  | changeUserKey name domain pubkey =>
    exact good_changeUser hm h _ _ name domain rfl _ rfl hsound hdist
  | changeUserPriv name domain priv =>
    exact good_changeUser hm h _ _ name domain rfl _ rfl hsound hdist
  | changeUserDomain name domain new_domain =>
    exact good_changeUserDomain hm h name domain new_domain hsound hdist hdist'
  | addDomain domain caseInsensitive => exact good_addDomain hm h domain caseInsensitive
  | delDomain domain => exact good_delDomain hm h domain
  | changeDomainName domain new_domain =>
    exact good_changeDomainName hm h domain new_domain hsound
  | changeDomainSensitivity domain caseInsensitive =>
    exact good_changeDomainSensitivity hm h domain caseInsensitive hsound

end UserTable

end Zuckerserv
