import Zuckerserv.Auth.UserTable

/-!
# The entries of a user

A user has an entry under its name and, where its domain is not case-sensitive, another one under
the lower-cased name. As names stay distinct when they are lower-cased, no entry is that of two
users.

* `put` — the entries of a user are set.
* `Holds.put_of_user`, `Holds.put_new` — the table has what is stored afterwards.
* `moved_eq_put` — what a command does with a user that gets another name or another domain.
-/

namespace Zuckerserv

namespace UserTable

open Machine

/-! ## The table -/

variable {t p : Table} {c : Content} {name domain key : String} {d : Domain} {u : User}
  {ci : Bool}

/-- The users that are found are those of the table. -/
def Holds (t : Table) (c : Content) : Prop :=
  ∀ key domain u, t (key, domain) = some u ↔ Found c key domain u

instance (ci : Bool) (name key : String) : Decidable (Key ci name key) :=
  inferInstanceAs (Decidable (_ ∨ _))

/-- The entries of a user are set. -/
def put (t : Table) (ci : Bool) (name domain : String) (user : Option User) : Table := fun k =>
  if k.2 = domain ∧ Key ci name k.1 then user else t k

/-- A letter that has been lower-cased is no upper-case one. -/
theorem not_upper_toLower (c : Char) : ¬ (c.toLower.val ≥ 'A'.val ∧ c.toLower.val ≤ 'Z'.val) := by
  have hA : 'A'.val.toNat = 65 := rfl
  have hZ : 'Z'.val.toNat = 90 := rfl
  have hshift : ('a'.val - 'A'.val).toNat = 32 := rfl
  unfold Char.toLower
  split
  · next h =>
    obtain ⟨hlow, hhigh⟩ := h
    simp only [UInt32.le_iff_toNat_le, ge_iff_le, UInt32.toNat_add, hA, hZ, hshift]
      at hlow hhigh ⊢
    omega
  · next h => exact h

theorem toLower_toLower (c : Char) : c.toLower.toLower = c.toLower :=
  dif_neg (not_upper_toLower c)

theorem lower_lower (name : String) : lower (lower name) = lower name := by
  rw [lower, lower, String.map_map]
  exact congrArg (String.map · name) (funext toLower_toLower)

theorem Key.lower_eq (h : Key ci name key) : lower key = lower name := by
  rcases h with rfl | ⟨-, rfl⟩
  · rfl
  · exact lower_lower name

/-- The keys of a name that is lower-case. -/
theorem key_iff_of_lower (h : lower name = name) (ci ci' : Bool) (key : String) :
    Key ci name key ↔ Key ci' name key := by
  unfold Key
  rw [h]
  exact ⟨fun hk => .inl (hk.elim id And.right), fun hk => .inl (hk.elim id And.right)⟩

theorem Domain.set_self (d : Domain) (name : String) (user : Option User) :
    (d.set name user).users name = user := Function.update_self ..

theorem Domain.set_of_ne {name' : String} (hne : name' ≠ name) (user : Option User) :
    (d.set name user).users name' = d.users name' := Function.update_of_ne hne _ _

theorem Content.set_self (hd : c domain = some d) (user : Option User) :
    c.set name domain user domain = some (d.set name user) := by
  rw [Content.set, Function.update_self, hd]
  rfl

theorem Content.set_of_ne {domain' : String} (hne : domain' ≠ domain) (user : Option User) :
    c.set name domain user domain' = c domain' := Function.update_of_ne hne _ _

/-- The entries of a user change with what is stored for it. -/
theorem Holds.put (h : Holds t c) (hd : c domain = some d) (user : Option User)
    (hsep : ∀ name', name' ≠ name → (d.users name').isSome → lower name' ≠ lower name) :
    Holds (put t d.caseInsensitive name domain user) (c.set name domain user) := by
  intro key domain' u
  unfold UserTable.put
  dsimp only
  by_cases hdom : domain' = domain
  · subst hdom
    by_cases hkey : Key d.caseInsensitive name key
    · rw [if_pos ⟨rfl, hkey⟩]
      constructor
      · intro huser
        refine ⟨_, name, Content.set_self hd user, ?_, hkey⟩
        rw [← huser]
        exact Domain.set_self ..
      · rintro ⟨d', name', hd', hu, hkey'⟩
        cases Option.some.inj ((Content.set_self hd user).symm.trans hd')
        by_cases hname : name' = name
        · rw [hname] at hu
          exact (Domain.set_self ..).symm.trans hu
        · have hu' : d.users name' = some u := (Domain.set_of_ne hname user).symm.trans hu
          have hlower := (Key.lower_eq hkey').symm.trans (Key.lower_eq hkey)
          exact absurd hlower (hsep name' hname (hu' ▸ rfl))
    · rw [if_neg fun hc => hkey hc.2]
      refine (h key domain' u).trans ?_
      constructor
      · rintro ⟨d', name', hd', hu, hkey'⟩
        cases Option.some.inj (hd.symm.trans hd')
        have hname : name' ≠ name := fun heq => hkey (heq ▸ hkey')
        exact ⟨_, name', Content.set_self hd user, (Domain.set_of_ne hname user).trans hu, hkey'⟩
      · rintro ⟨d', name', hd', hu, hkey'⟩
        cases Option.some.inj ((Content.set_self hd user).symm.trans hd')
        have hname : name' ≠ name := fun heq => hkey (heq ▸ hkey')
        exact ⟨d, name', hd, (Domain.set_of_ne hname user).symm.trans hu, hkey'⟩
  · rw [if_neg fun hc => hdom hc.1]
    refine (h key domain' u).trans ?_
    unfold Found
    rw [Content.set_of_ne hdom]

/-- The entries of a user that is stored. -/
theorem Holds.put_of_user (h : Holds t c) (hd : c domain = some d) (hu : (d.users name).isSome)
    (hdist : Distinct c) (user : Option User) :
    Holds (UserTable.put t d.caseInsensitive name domain user) (c.set name domain user) :=
  h.put hd user fun name' hne hu' heq => hne (hdist domain d name' name hd hu' hu heq)

/-- A user that is not stored has no entries, and gets them. -/
theorem Holds.put_new (h : Holds t c) (hd : c domain = some d) (hu : d.users name = none)
    (hdist : Distinct (c.set name domain (some u))) :
    (∀ key, Key d.caseInsensitive name key → t (key, domain) = none) ∧
      Holds (UserTable.put t d.caseInsensitive name domain (some u))
        (c.set name domain (some u)) := by
  have hsep (name' : String) (hne : name' ≠ name) (hu' : (d.users name').isSome) :
      lower name' ≠ lower name := by
    intro heq
    refine hne (hdist domain _ name' name (Content.set_self hd _) ?_ ?_ heq)
    · exact (congrArg Option.isSome (Domain.set_of_ne hne _)).trans hu'
    · exact congrArg Option.isSome (Domain.set_self ..)
  refine ⟨fun key hkey => ?_, h.put hd _ hsep⟩
  cases ht : t (key, domain) with
  | none => rfl
  | some v =>
    obtain ⟨d', name', hd', hv, hkey'⟩ := (h key domain v).mp ht
    cases Option.some.inj (hd.symm.trans hd')
    have hne : name' ≠ name := by
      rintro rfl
      exact absurd (hv.symm.trans hu) nofun
    exact absurd ((Key.lower_eq hkey').symm.trans (Key.lower_eq hkey)) (hsep name' hne (hv ▸ rfl))

theorem adduser_of_none (h : t (name, domain) = none) (u : User) :
    adduser t name domain u = Function.update t (name, domain) (some u) := by
  unfold adduser
  rw [h]

theorem adduser_of_some (h : t (name, domain) = some u) (v : User) :
    adduser t name domain v = t := by
  unfold adduser
  rw [h]

/-- A user under one name. -/
theorem put_false (t : Table) (name domain : String) (user : Option User) :
    put t false name domain user = Function.update t (name, domain) user := by
  funext ⟨key, domain'⟩
  unfold UserTable.put Key
  by_cases hdom : domain' = domain <;> by_cases hkey : key = name <;>
    simp_all [Function.update_apply]

/-- A user under two names. -/
theorem put_true (t : Table) (name domain : String) (user : Option User) :
    put t true name domain user =
      Function.update (Function.update t (lower name, domain) user) (name, domain) user := by
  funext ⟨key, domain'⟩
  unfold UserTable.put Key
  by_cases hdom : domain' = domain <;> by_cases hkey : key = name <;>
    by_cases hlower : key = lower name <;> simp_all [Function.update_apply]

/-- What is removed with a user. -/
theorem remove_eq_put (t : Table) (ci : Bool) (name domain : String) :
    deleteuser (if ci = true then deleteLowered t name domain else t) name domain =
      put t ci name domain none := by
  cases ci with
  | false => exact (put_false t name domain none).symm
  | true =>
    rw [put_true, if_pos rfl]
    unfold deleteLowered deleteuser
    split
    · next hname =>
      rw [← hname, Function.update_idem]
    · rfl

/-- What is done with a user that gets another name or another domain. -/
theorem moved_eq_put (t : Table) (ci : Bool) (name domain new_name new_domain : String) (u : User)
    (hne : ci = true → (lower new_name, new_domain) ≠ (name, domain))
    (hfree : ∀ key, Key ci new_name key → put t ci name domain none (key, new_domain) = none) :
    adduser (deleteuser (if ci = true then
        adduser (deleteLowered t name domain) (lower new_name) new_domain u else t) name domain)
      new_name new_domain u = put (put t ci name domain none) ci new_name new_domain (some u) := by
  rw [← remove_eq_put] at hfree ⊢
  cases ci with
  | false =>
    rw [put_false]
    exact adduser_of_none (hfree new_name (.inl rfl)) u
  | true =>
    rw [if_pos rfl, if_pos rfl] at *
    have hlow : deleteLowered t name domain (lower new_name, new_domain) = none := by
      have := hfree (lower new_name) (.inr ⟨rfl, rfl⟩)
      rwa [deleteuser, Function.update_of_ne (hne rfl)] at this
    have hcomm : deleteuser (adduser (deleteLowered t name domain) (lower new_name) new_domain u)
        name domain = Function.update (deleteuser (deleteLowered t name domain) name domain)
          (lower new_name, new_domain) (some u) := by
      rw [adduser_of_none hlow, deleteuser, deleteuser, Function.update_comm (hne rfl)]
    rw [hcomm, put_true]
    by_cases hsame : new_name = lower new_name
    · rw [← hsame, Function.update_idem]
      exact adduser_of_some (Function.update_self ..) u
    · refine adduser_of_none ?_ u
      rw [Function.update_of_ne fun heq => hsame (Prod.mk.inj heq).1]
      exact hfree new_name (.inl rfl)

end UserTable

end Zuckerserv
