import Mathlib.Data.List.Induction
import Zuckerserv.Auth.UserCommands

/-!
# Runs of the front end

The table is made from what the database has loaded, and kept in step by the commands.

* `useDb` — the table at the start.
* `inSync_useDb` — it has what is stored.
* `synced_run` — so it has in every state of a run in which each command is sound.
-/

namespace Zuckerserv

namespace UserTable

open Machine

variable {t : Table} {c : Content} {name domain key : String} {u : User} {b : Backend}
  {content : b.State → Content}

/-! ## The start -/

/-- What the database has loaded: the domains, and their users in the order of `pairs`. -/
abbrev Loaded := List (String × Bool × List (String × User))

/-- The users of a domain are added, where it is not case-sensitive under the lower-cased name
first. -/
def loadDomain (t : Table) (l : String × Bool × List (String × User)) : Table :=
  l.2.2.foldl (fun t user => adduser t user.1 l.1 user.2)
    (if l.2.1 then
      l.2.2.foldl (fun t user =>
        if lower user.1 = user.1 then t else adduser t (lower user.1) l.1 user.2) t
    else t)

/-- `use_db(db)`. -/
def useDb (b : Backend) (db : b.State) (loaded : Loaded) : Front b where
  db := db
  domains domain := loaded.any (·.1 == domain)
  caseInsensitiveDomains domain := loaded.any fun l => l.1 == domain && l.2.1
  users := loaded.foldl loadDomain fun _ => none

/-- What has been loaded is what is stored. -/
structure Loads (c : Content) (loaded : Loaded) : Prop where
  listed : ∀ domain d, c domain = some d → ∃ l ∈ loaded, l.1 = domain
  stored : ∀ l ∈ loaded, ∃ d, c l.1 = some d ∧ d.caseInsensitive = l.2.1 ∧
    ∀ name u, (name, u) ∈ l.2.2 ↔ d.users name = some u

theorem adduser_isSome (t : Table) (name domain : String) (u : User) {k : String × String}
    (h : (t k).isSome) : (adduser t name domain u k).isSome := by
  cases ht : t (name, domain) with
  | some v =>
    rw [adduser_of_some ht]
    exact h
  | none =>
    rw [adduser_of_none ht]
    by_cases hk : k = (name, domain)
    · rw [hk, Function.update_self]
      rfl
    · rw [Function.update_of_ne hk]
      exact h

theorem adduser_self_isSome (t : Table) (name domain : String) (u : User) :
    (adduser t name domain u (name, domain)).isSome := by
  cases ht : t (name, domain) with
  | some v =>
    rw [adduser_of_some ht, ht]
    rfl
  | none =>
    rw [adduser_of_none ht, Function.update_self]
    rfl

/-- Every entry is that of a user that is found. -/
def Within (t : Table) (c : Content) : Prop :=
  ∀ key domain u, t (key, domain) = some u → Found c key domain u

theorem Within.adduser (h : Within t c) (hu : Found c name domain u) :
    Within (adduser t name domain u) c := by
  unfold UserTable.adduser
  split
  · exact h
  · intro key domain' v hv
    by_cases hk : (key, domain') = (name, domain)
    · rw [hk, Function.update_self] at hv
      cases hk
      cases hv
      exact hu
    · rw [Function.update_of_ne hk] at hv
      exact h key domain' v hv

theorem foldl_inv {α : Type} {g : Table → α → Table} {us : List α}
    (hg : ∀ t, ∀ x ∈ us, Within t c → Within (g t x) c) (h : Within t c) :
    Within (us.foldl g t) c := by
  induction us generalizing t with
  | nil => exact h
  | cons x us ih =>
    exact ih (fun t y hy => hg t y (List.mem_cons_of_mem x hy)) (hg t x List.mem_cons_self h)

theorem Within.loadDomain (h : Within t c) {loaded : Loaded} (hload : Loads c loaded)
    {l : String × Bool × List (String × User)} (hl : l ∈ loaded) :
    Within (loadDomain t l) c := by
  obtain ⟨d, hd, hci, husers⟩ := hload.stored l hl
  refine foldl_inv (fun t x hx ht => ht.adduser ?_) ?_
  · exact ⟨d, x.1, hd, (husers x.1 x.2).mp hx, .inl rfl⟩
  · split
    · next htrue =>
      refine foldl_inv (fun t x hx ht => ?_) h
      split
      · exact ht
      · exact ht.adduser ⟨d, x.1, hd, (husers x.1 x.2).mp hx, .inr ⟨hci.trans htrue, rfl⟩⟩
    · exact h

/-- There is an entry for each key of a user. -/
theorem loadDomain_isSome {l : String × Bool × List (String × User)} {k : String × String}
    (t : Table) (h : (t k).isSome ∨ ∃ x ∈ l.2.2, k.2 = l.1 ∧ Key l.2.1 x.1 k.1) :
    (loadDomain t l k).isSome := by
  have hkeep (t : Table) (x : String × User) (ht : (t k).isSome) :
      (adduser t x.1 l.1 x.2 k).isSome := adduser_isSome t x.1 l.1 x.2 ht
  have hkeep' (t : Table) (x : String × User) (ht : (t k).isSome) :
      ((if lower x.1 = x.1 then t else adduser t (lower x.1) l.1 x.2) k).isSome := by
    split
    · exact ht
    · exact adduser_isSome t (lower x.1) l.1 x.2 ht
  refine foldl_at (fun o => o.isSome = true) hkeep l.2.2 _ ?_
  rcases h with h | ⟨x, hx, hdomain, hkey⟩
  · refine .inl ?_
    split
    · exact foldl_at (fun o => o.isSome = true) hkeep' l.2.2 t (.inl h)
    · exact h
  · obtain ⟨key, domain⟩ := k
    cases hdomain
    by_cases hname : key = x.1
    · cases hname
      exact .inr ⟨x, hx, fun t => adduser_self_isSome t x.1 l.1 x.2⟩
    · obtain ⟨hci, hlower⟩ := hkey.resolve_left hname
      change key = lower x.1 at hlower
      refine .inl ?_
      rw [if_pos hci]
      refine foldl_at (fun o => o.isSome = true) hkeep' l.2.2 t (.inr ⟨x, hx, fun t => ?_⟩)
      rw [if_neg fun heq => hname (hlower.trans heq), hlower]
      exact adduser_self_isSome t (lower x.1) l.1 x.2

/-- One user is found at most. -/
theorem Found.unique (hdist : Distinct c) {v : User} (hu : Found c key domain u)
    (hv : Found c key domain v) : u = v := by
  obtain ⟨d, name, hd, hname, hkey⟩ := hu
  obtain ⟨d', name', hd', hname', hkey'⟩ := hv
  cases Option.some.inj (hd.symm.trans hd')
  have heq := hdist domain d name name' hd (hname ▸ rfl) (hname' ▸ rfl)
    ((Key.lower_eq hkey).symm.trans (Key.lower_eq hkey'))
  cases heq
  exact Option.some.inj (hname.symm.trans hname')

/-- The table that is made at the start. -/
theorem inSync_useDb {s : b.State} {loaded : Loaded} (hload : Loads (content s) loaded)
    (hdist : Distinct (content s)) : InSync content (useDb b s loaded) where
  domains domain := by
    refine Bool.eq_iff_iff.mpr ((List.any_eq_true).trans ⟨?_, fun hsome => ?_⟩)
    · rintro ⟨l, hl, heq⟩
      obtain ⟨d, hd, -⟩ := hload.stored l hl
      rw [beq_iff_eq.mp heq] at hd
      exact Option.isSome_iff_exists.mpr ⟨d, hd⟩
    · obtain ⟨d, hd⟩ := Option.isSome_iff_exists.mp hsome
      obtain ⟨l, hl, heq⟩ := hload.listed domain d hd
      exact ⟨l, hl, beq_iff_eq.mpr heq⟩
  caseInsensitive domain := by
    refine Bool.eq_iff_iff.mpr ((List.any_eq_true).trans ⟨?_, fun hany => ?_⟩)
    · rintro ⟨l, hl, heq⟩
      obtain ⟨hdomain, htrue⟩ := Bool.and_eq_true_iff.mp heq
      obtain ⟨d, hd, hci, -⟩ := hload.stored l hl
      rw [beq_iff_eq.mp hdomain] at hd
      change (content s domain).any _ = true
      rw [hd]
      exact hci.trans htrue
    · cases hd : content s domain with
      | none =>
        change (content s domain).any _ = true at hany
        rw [hd] at hany
        exact absurd hany nofun
      | some d =>
        change (content s domain).any _ = true at hany
        rw [hd] at hany
        have hci : d.caseInsensitive = true := hany
        obtain ⟨l, hl, heq⟩ := hload.listed domain d hd
        obtain ⟨d', hd', hci', -⟩ := hload.stored l hl
        rw [heq] at hd'
        cases Option.some.inj (hd.symm.trans hd')
        exact ⟨l, hl, Bool.and_eq_true_iff.mpr ⟨beq_iff_eq.mpr heq, hci'.symm.trans hci⟩⟩
  found key domain u := by
    have hwithin : Within (useDb b s loaded).users (content s) :=
      foldl_inv (fun t l hl ht => ht.loadDomain hload hl) fun _ _ _ h => absurd h nofun
    refine ⟨hwithin key domain u, fun hfound => ?_⟩
    obtain ⟨d, name, hd, hname, hkey⟩ := hfound
    obtain ⟨l, hl, heq⟩ := hload.listed domain d hd
    obtain ⟨d', hd', hci, husers⟩ := hload.stored l hl
    rw [heq] at hd'
    cases Option.some.inj (hd.symm.trans hd')
    have hsome : ((useDb b s loaded).users (key, domain)).isSome :=
      foldl_at (fun o => o.isSome = true) (fun t l ht => loadDomain_isSome t (.inl ht)) loaded _
        (.inr ⟨l, hl, fun t => loadDomain_isSome t
          (.inr ⟨(name, u), (husers name u).mpr hname, heq.symm, hci ▸ hkey⟩)⟩)
    obtain ⟨v, hv⟩ := Option.isSome_iff_exists.mp hsome
    rw [hv, Found.unique hdist (hwithin key domain v hv) ⟨d, name, hd, hname, hkey⟩]

/-! ## Runs -/

/-- In a run in which the names in a domain stay distinct when they are lower-cased and each command
is sound, the table has what is stored, for the domains and the users that the database has loaded
and in every state that is reached; and no command has a run-time error or reports a failure
although it has changed something. -/
theorem synced_run (b : Backend) (content : b.State → Content) (hm : Meets b content)
    (s : b.State) (loaded : Loaded) (hload : Loads (content s) loaded) (as : List Command)
    (hdist : ∀ bs cs, as = bs ++ cs →
      Distinct (content (Machine.run step (useDb b s loaded) bs).db))
    (hsound : Along Sound step (useDb b s loaded) as) (bs cs : List Command)
    (has : as = bs ++ cs) :
    InSync content (Machine.run step (useDb b s loaded) bs) ∧
      ∀ a rest, cs = a :: rest → Good content (Machine.run step (useDb b s loaded) bs)
        (apply (Machine.run step (useDb b s loaded) bs) a) := by
  have hgood : ∀ bs a cs, as = bs ++ a :: cs →
      InSync content (Machine.run step (useDb b s loaded) bs) →
        Good content (Machine.run step (useDb b s loaded) bs)
          (apply (Machine.run step (useDb b s loaded) bs) a) := by
    intro bs a cs has hsync
    refine good_apply hm hsync a (along_iff.mp hsound bs a cs has) (hdist bs _ has) ?_
    have hnext := hdist (bs ++ [a]) cs (has.trans (List.append_cons bs a cs))
    rw [run_snoc] at hnext
    exact hnext
  have hsync : ∀ bs cs, as = bs ++ cs →
      InSync content (Machine.run step (useDb b s loaded) bs) := by
    intro bs
    induction bs using List.reverseRecOn with
    | nil => exact fun cs has => inSync_useDb hload (hdist [] cs has)
    | append_singleton bs a ih =>
      intro cs has
      have has' : as = bs ++ a :: cs := has.trans (List.append_cons bs a cs).symm
      rw [run_snoc]
      exact (hgood bs a cs has' (ih _ has')).sync
  refine ⟨hsync bs cs has, fun a rest hcs => ?_⟩
  rw [hcs] at has
  exact hgood bs a rest has (hsync bs _ has)

/-- A database to which domains and users can only be added. -/
def growing : Backend where
  State := Content
  isUser c name domain := (c.user name domain).isSome
  call c
    | .addUser name domain pubkey priv =>
      (documented c (.addUser name domain pubkey priv), .nothing)
    | .addDomain domain caseInsensitive =>
      (documented c (.addDomain domain caseInsensitive), .nothing)
    | _ => (c, .err "not supported")

theorem growing_meets : Meets growing id where
  isUser _ _ _ := rfl
  failed _ call h := by
    cases call with
    | addUser | addDomain => exact absurd h nofun
    | _ => rfl
  done _ call h := by
    cases call with
    | addUser | addDomain => rfl
    | _ => exact absurd h nofun
  changed _ call _ _ hchanged h := by
    cases call with
    | addUser | addDomain => exact absurd hchanged nofun
    | _ => exact absurd h nofun
  listed _ call _ hlisted h := by
    cases call with
    | addUser | addDomain => exact absurd hlisted nofun
    | _ => exact absurd h nofun

/-- A domain, and a user in it. -/
def addOne (caseInsensitive : Option String) (name : String) : List Command :=
  [.addDomain "d" caseInsensitive, .addUser name "d" "k" "p"]

theorem loads_nothing : Loads (fun _ => none) [] :=
  ⟨fun _ _ h => absurd h nofun, fun _ h => absurd h List.not_mem_nil⟩

/-- A domain without users. -/
def oneDomain (caseInsensitive : Bool) : Content :=
  Function.update (fun _ => none) "d" (some ⟨caseInsensitive, fun _ => none⟩)

theorem oneDomain_none (caseInsensitive : Bool) (name domain : String) :
    (oneDomain caseInsensitive).user name domain = none := by
  unfold oneDomain Content.user
  by_cases hd : domain = "d"
  · rw [hd, Function.update_self]
    rfl
  · rw [Function.update_of_ne hd]
    rfl

theorem distinct_of_none (h : ∀ name domain, c.user name domain = none) : Distinct c := by
  intro domain d name name' hd hname
  rw [← Content.user_eq hd, h] at hname
  exact absurd hname nofun

/-- The names are distinct where there is one. -/
theorem distinct_set (h : ∀ name domain, c.user name domain = none) (name domain : String)
    (user : Option User) : Distinct (c.set name domain user) := by
  have hone {domain' : String} {d : Domain} {name' : String}
      (hd : c.set name domain user domain' = some d) (hname : (d.users name').isSome) :
      name' = name := by
    by_contra hne
    refine absurd hname ?_
    rw [← Content.user_eq hd]
    by_cases hdom : domain' = domain
    · subst hdom
      cases he : c domain' with
      | none =>
        rw [Content.set, Function.update_self, he] at hd
        cases hd
      | some e =>
        rw [Content.user_eq (Content.set_self he user), Domain.set_of_ne hne,
          ← Content.user_eq he, h]
        exact Bool.false_ne_true
    · rw [Content.user, Content.set_of_ne hdom]
      change ¬ (c.user name' domain').isSome = true
      rw [h]
      exact Bool.false_ne_true
  exact fun domain' d name' name'' hd hname hname' _ => (hone hd hname).trans (hone hd hname').symm

theorem synced_run_one :
    InSync (b := growing) id (Machine.run step (useDb growing (fun _ => none) [])
      (addOne none "bob")) := by
  refine (synced_run growing id growing_meets (fun _ => none) [] loads_nothing (addOne none "bob")
    (fun bs cs has => ?_) ?_ (addOne none "bob") [] rfl).1
  · rcases bs with _ | ⟨x, _ | ⟨y, rest⟩⟩
    · exact distinct_of_none fun _ _ => rfl
    · cases (List.cons.inj has).1
      exact distinct_of_none (oneDomain_none false)
    · obtain ⟨hx, hrest⟩ := List.cons.inj has
      obtain ⟨hy, hnil⟩ := List.cons.inj hrest
      cases hx
      cases hy
      cases (List.append_eq_nil_iff.mp hnil.symm).1
      exact distinct_set (oneDomain_none false) "bob" "d" (some ⟨"k", "p"⟩)
  · exact ⟨trivial, fun _ h => absurd h Bool.false_ne_true, trivial⟩

/-- In a domain that is not case-sensitive a user is added under the lower-cased name alone. -/
theorem name_not_added :
    ¬ ∀ (b : Backend) (content : b.State → Content), Meets b content →
      ∀ (s : b.State) (loaded : Loaded), Loads (content s) loaded → ∀ as : List Command,
        (∀ bs cs, as = bs ++ cs →
          Distinct (content (Machine.run step (useDb b s loaded) bs).db)) →
        InSync content (Machine.run step (useDb b s loaded) as) := by
  intro h
  have hsync := h growing id growing_meets (fun _ => none) [] loads_nothing
    (addOne (some "1") "Bob") fun bs cs has => ?_
  · have hlower : lower "Bob" ≠ "Bob" := by
      intro heq
      have hlist := congrArg String.toList heq
      rw [lower, String.toList_map] at hlist
      exact absurd hlist (by decide)
    have hfound : Found ((oneDomain true).set "Bob" "d" (some ⟨"k", "p"⟩)) "Bob" "d" ⟨"k", "p"⟩ :=
      ⟨_, "Bob", Content.set_self (Function.update_self ..) _, Domain.set_self .., .inl rfl⟩
    have hentry := (hsync.found "Bob" "d" ⟨"k", "p"⟩).mpr hfound
    have htable : (Machine.run step (useDb growing (fun _ => none) [])
        (addOne (some "1") "Bob")).users = Function.update (fun _ => none) (lower "Bob", "d")
          (some ⟨"k", "p"⟩) := rfl
    rw [htable, Function.update_of_ne fun heq => hlower (Prod.mk.inj heq).1.symm] at hentry
    cases hentry
  · rcases bs with _ | ⟨x, _ | ⟨y, rest⟩⟩
    · exact distinct_of_none fun _ _ => rfl
    · cases (List.cons.inj has).1
      exact distinct_of_none (oneDomain_none true)
    · obtain ⟨hx, hrest⟩ := List.cons.inj has
      obtain ⟨hy, hnil⟩ := List.cons.inj hrest
      cases hx
      cases hy
      cases (List.append_eq_nil_iff.mp hnil.symm).1
      exact distinct_set (oneDomain_none true) "Bob" "d" (some ⟨"k", "p"⟩)

end UserTable

end Zuckerserv
