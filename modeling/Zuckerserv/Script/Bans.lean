import Zuckerserv.Lib.Machine
import Zuckerserv.Script.IpVars

/-!
# Bans

A ban is kept in the variables of a mask, with the time when it ends. An address is banned by the
variables of all masks that cover it, merged into one table.

* `ban`, `unban`, `isBanned` — the operations.
* `Table.Exact` — a table that answers as it should.
* `Active` — a stored ban that covers the address and has not ended.
* `Honoured` — such a ban is on the longest covering mask that has any.
* `banned_iff` — when the answer is right, after any run.
-/

namespace Zuckerserv

namespace Vars

open Net Radix Machine

/-- The table answers as it should: `content t` is what `t` has. -/
structure Table.Exact {τ : Type} (T : Table τ) (content : τ → WordMap Prefix) : Prop where
  empty : content T.empty = Radix.empty
  insert : ∀ t p m, content (T.insert t p m) = put p.bits m (content t)
  erase : ∀ t p, content (T.erase t p) = drop p.bits (content t)
  lookup : ∀ t ip, 0 < ip.mask → T.lookup t ip = covers (content t) ip.bits

namespace Bans

/-! ## The scripts -/

def VERY_LONG_BANTIME : Int := 63072000

/-- The variables, and `os.time()`. -/
structure State (τ : Type) where
  store : Store τ
  now : Int

variable {τ : Type} (T : Table τ)

/-- `server.set_ip_var(ipmask, name, value)`. -/
def set (s : State τ) (ipmask : Prefix) (name : String) (value : Option Value) : State τ :=
  { s with store := setIpVar T s.store ipmask name value }

/-- `server.ban(ipmask, bantime, admin, reason, name, gban)`; `date` is `os.date()`. -/
def ban (s : State τ) (ipmask : Prefix) (bantime : Option Int) (admin reason name : Option String)
    (gban : Option Bool) (date : String) : State τ :=
  let bantime := match bantime with
    | none => VERY_LONG_BANTIME
    | some bantime => if bantime = -1 then VERY_LONG_BANTIME else bantime
  let reason := reason.getD ""
  let s := set T s ipmask "ban_name" (name.map .string)
  let s := set T s ipmask "ban_time" (some (.string date))
  let s := set T s ipmask "ban_expire" (some (.number (s.now + bantime)))
  let s := set T s ipmask "ban_admin" (admin.map .string)
  let s := set T s ipmask "ban_reason" (some (.string reason))
  set T s ipmask "is_gban" (some (.boolean (gban.getD false)))

/-- `server.unban(ipmask)`. -/
def unban (s : State τ) (ipmask : Prefix) : State τ :=
  let s := set T s ipmask "ban_name" none
  let s := set T s ipmask "ban_expire" none
  let s := set T s ipmask "ban_admin" none
  let s := set T s ipmask "ban_reason" none
  let s := set T s ipmask "ban_time" none
  set T s ipmask "is_gban" none

/-- `bantime > os.time()`. -/
def later : Option Value → Int → Bool
  | some (.number bantime), now => bantime > now
  | _, _ => false

/-- `is_banned(ipmask, reserved_slot)`: the answer, and the state after it. -/
def isBanned (s : State τ) (ipmask : Prefix) (reserved_slot : Bool) : Option Bool × State τ :=
  let ban := ipVars T s.store ipmask
  let bantime := ban.lookup "ban_expire"
  if truthy (ban.lookup "ignore_gban") then (some false, s)
  else if truthy bantime ∧ ¬ reserved_slot then
    if later bantime s.now then (some true, s) else (some false, unban T s ipmask)
  else (none, s)

/-- What happens: bans and their ends, connections that are checked, and time. -/
inductive Action
  | ban (ipmask : Prefix) (bantime : Option Int) (admin reason name : Option String)
    (gban : Option Bool) (date : String)
  | unban (ipmask : Prefix)
  | check (ipmask : Prefix) (reserved_slot : Bool)
  | time (now : Int)

/-- One step. -/
def step (s : State τ) : Action → State τ
  | .ban ipmask bantime admin reason name gban date =>
    ban T s ipmask bantime admin reason name gban date
  | .unban ipmask => unban T s ipmask
  | .check ipmask reserved_slot => (isBanned T s ipmask reserved_slot).2
  | .time now => { s with now := now }

/-- Nobody is banned. -/
def start (now : Int) : State τ := ⟨Store.empty T, now⟩

/-! ## Stored bans -/

/-- The mask covers the address, and has a ban that has not ended. -/
def Active (s : State τ) (ip m : Prefix) : Prop :=
  m.bits <+: ip.bits ∧ ∃ t, s.store.value m "ban_expire" = some (.number t) ∧ s.now < t

/-- The mask with an active ban is the longest one in the table that covers the address and has any
ban. -/
def Decisive (content : τ → WordMap Prefix) (s : State τ) (ip m : Prefix) : Prop :=
  content s.store.ipmaskVarsByIpmask m.bits = some m ∧ Active s ip m ∧
    ∀ m', content s.store.ipmaskVarsByIpmask m'.bits = some m' → m'.bits <+: ip.bits →
      m.bits.length < m'.bits.length → s.store.value m' "ban_expire" = none

/-- Where a ban is active, the longest covering mask that has any ban has an active one. -/
def Honoured (content : τ → WordMap Prefix) (s : State τ) (ip : Prefix) : Prop :=
  (∃ m, Active s ip m) → ∃ m, Decisive content s ip m

/-- What is kept of the variables of bans. -/
structure Kept (content : τ → WordMap Prefix) (s : Store τ) : Prop where
  found : ∀ w m, content s.ipmaskVarsByIpmask w = some m → m.bits = w
  ignore : ∀ m, s.value m "ignore_gban" = none
  expire : ∀ m v, s.value m "ban_expire" = some v → ∃ t, v = .number t

variable {T} {content : τ → WordMap Prefix} {s : State τ} {m : Prefix} {name : String}
  {v : Option Value}

/-- The table has a mask at its own prefix, after an assignment as before. -/
theorem found_setIpVar (hT : T.Exact content) {s : Store τ}
    (h : ∀ w m, content s.ipmaskVarsByIpmask w = some m → m.bits = w) (ipmask : Prefix)
    (name : String) (v : Option Value) :
    ∀ w m, content (setIpVar T s ipmask name v).ipmaskVarsByIpmask w = some m →
      m.bits = w := by
  have hensure : ∀ w m, content (ensureVars T s ipmask).ipmaskVarsByIpmask w = some m →
      m.bits = w := by
    intro w m hm
    unfold ensureVars at hm
    split at hm
    · exact h w m hm
    · rw [hT.insert] at hm
      unfold put at hm
      split at hm
      · rename_i hw
        cases hm
        exact hw.symm
      · exact h w m hm
  intro w m hm
  unfold setIpVar at hm
  dsimp only at hm
  split at hm
  · exact hensure w m hm
  · split at hm
    · rw [hT.erase] at hm
      unfold drop at hm
      split at hm
      · cases hm
      · exact hensure w m hm
    · exact hensure w m hm

/-- An assignment keeps what is kept of bans: it is not to `ignore_gban`, and a time where it is to
`ban_expire`. -/
theorem Kept.set (hT : T.Exact content) (h : Kept content s.store) (ipmask : Prefix)
    (hignore : name ≠ "ignore_gban") (hexpire : name = "ban_expire" → ∀ v', v = some v' →
      ∃ t, v' = .number t) : Kept content (set T s ipmask name v).store := by
  refine ⟨found_setIpVar hT h.found ipmask name v, fun m => ?_, fun m v' hv => ?_⟩
  · refine (value_setIpVar T s.store ipmask name v m _).trans ?_
    rw [if_neg fun hsame => hignore hsame.2.symm]
    exact h.ignore m
  · have hv := (value_setIpVar T s.store ipmask name v m "ban_expire").symm.trans hv
    split at hv
    · rename_i hsame
      exact hexpire hsame.2.symm v' hv
    · exact h.expire m v' hv

theorem Kept.unban (hT : T.Exact content) (h : Kept content s.store) (ipmask : Prefix) :
    Kept content (unban T s ipmask).store := by
  have hset {s : State τ} {name : String} (h : Kept content s.store)
      (hname : name ≠ "ignore_gban") : Kept content (Bans.set T s ipmask name none).store :=
    h.set hT ipmask hname fun _ v' hv' => by cases hv'
  exact hset (hset (hset (hset (hset (hset h (by decide)) (by decide)) (by decide)) (by decide))
    (by decide)) (by decide)

theorem Kept.ban (hT : T.Exact content) (h : Kept content s.store) (ipmask : Prefix)
    (bantime : Option Int) (admin reason name : Option String) (gban : Option Bool)
    (date : String) :
    Kept content (ban T s ipmask bantime admin reason name gban date).store := by
  have hset {s : State τ} {name : String} {v : Option Value} (h : Kept content s.store)
      (hignore : name ≠ "ignore_gban") (hexpire : name ≠ "ban_expire") :
      Kept content (Bans.set T s ipmask name v).store :=
    h.set hT ipmask hignore fun heq => absurd heq hexpire
  have hexpire {s : State τ} {t : Int} (h : Kept content s.store) :
      Kept content (Bans.set T s ipmask "ban_expire" (some (.number t))).store :=
    h.set hT ipmask (by decide) fun _ v' hv' => ⟨t, (Option.some.inj hv').symm⟩
  exact hset (hset (hset (hexpire (hset (hset h (by decide) (by decide)) (by decide) (by decide)))
    (by decide) (by decide)) (by decide) (by decide)) (by decide) (by decide)

theorem Kept.step (hT : T.Exact content) (a : Action) (h : Kept content s.store) :
    Kept content (step T s a).store := by
  cases a with
  | ban ipmask bantime admin reason name gban date =>
    exact h.ban hT ipmask bantime admin reason name gban date
  | unban ipmask => exact h.unban hT ipmask
  | time now => exact h
  | check ipmask reserved_slot =>
    unfold Bans.step isBanned
    dsimp only
    split
    · exact h
    · split
      · split
        · exact h
        · exact h.unban hT ipmask
      · exact h

/-! ## The answer -/

/-- The variables of an address. -/
theorem lookup_ipVars (hT : T.Exact content) (s : Store τ) {ip : Prefix} (hip : 0 < ip.mask)
    (name : String) :
    (ipVars T s ip).lookup name =
      (covers (fun w => (content s.ipmaskVarsByIpmask w).bind fun m => s.value m name)
        ip.bits).getLast? := by
  unfold ipVars
  rw [lookup_merge, hT.lookup _ _ hip]
  unfold covers
  rw [List.filterMap_map, List.filterMap_filterMap]
  congr 1
  refine List.filterMap_congr fun w _ => congrArg _ (funext fun m => ?_)
  unfold Store.value
  dsimp only [Function.comp]
  cases s.ipmaskVars m <;> rfl

/-- An address is banned if and only if the longest covering mask with a ban has an active one. -/
theorem isBanned_iff (hT : T.Exact content) (h : Kept content s.store) {ip : Prefix}
    (hip : 0 < ip.mask) :
    (isBanned T s ip false).1 = some true ↔ ∃ m, Decisive content s ip m := by
  have hignore : (ipVars T s.store ip).lookup "ignore_gban" = none := by
    rw [lookup_ipVars hT _ hip, List.getLast?_eq_none_iff]
    refine List.filterMap_eq_nil_iff.mpr fun w _ => Option.bind_eq_none_iff.mpr fun m _ => ?_
    exact h.ignore m
  have hanswer : (isBanned T s ip false).1 = some true ↔
      ∃ t, (ipVars T s.store ip).lookup "ban_expire" = some (.number t) ∧ s.now < t := by
    unfold isBanned
    dsimp only
    rw [hignore, if_neg (show ¬ truthy none = true from Bool.false_ne_true)]
    cases hexpire : (ipVars T s.store ip).lookup "ban_expire" with
    | none =>
      rw [if_neg fun hboth => Bool.false_ne_true hboth.1]
      exact iff_of_false (fun h => by cases h) fun ⟨t, ht, _⟩ => by cases ht
    | some v =>
      rw [lookup_ipVars hT _ hip, getLast?_covers_eq_some_iff] at hexpire
      obtain ⟨w, -, hv, -⟩ := hexpire
      obtain ⟨m, -, hv⟩ := Option.bind_eq_some_iff.mp hv
      obtain ⟨t, rfl⟩ := h.expire m v hv
      rw [if_pos ⟨rfl, Bool.false_ne_true⟩]
      by_cases hlater : s.now < t
      · rw [if_pos (show later (some (.number t)) s.now = true from decide_eq_true hlater)]
        exact iff_of_true rfl ⟨t, rfl, hlater⟩
      · rw [if_neg (show ¬ later (some (.number t)) s.now = true from
          fun h => hlater (of_decide_eq_true h))]
        refine iff_of_false (fun h => by cases h) fun ⟨t', ht', hlater'⟩ => ?_
        cases ht'
        exact hlater hlater'
  rw [hanswer]
  constructor
  · rintro ⟨t, ht, hlater⟩
    rw [lookup_ipVars hT _ hip, getLast?_covers_eq_some_iff] at ht
    obtain ⟨w, hw, hv, hlonger⟩ := ht
    obtain ⟨m, hm, hvalue⟩ := Option.bind_eq_some_iff.mp hv
    have hbits := h.found w m hm
    subst hbits
    refine ⟨m, hm, ⟨hw, t, hvalue, hlater⟩, fun m' hm' hw' hlt => ?_⟩
    exact Option.bind_eq_none_iff.mp (hlonger m'.bits hw' hlt) m' hm'
  · rintro ⟨m, hm, ⟨hw, t, hv, hlater⟩, hlonger⟩
    refine ⟨t, ?_, hlater⟩
    rw [lookup_ipVars hT _ hip, getLast?_covers_eq_some_iff]
    refine ⟨m.bits, hw, Option.bind_eq_some_iff.mpr ⟨m, hm, hv⟩, fun w' hw' hlt => ?_⟩
    refine Option.bind_eq_none_iff.mpr fun m' hm' => ?_
    have hbits := h.found w' m' hm'
    subst hbits
    exact hlonger m' hm' hw' hlt

/-- After any run, an address is banned as it should be if and only if, where a ban is active, the
longest covering mask that has any ban has an active one. -/
theorem banned_iff (hT : T.Exact content) (now : Int) (as : List Action) (a : BitVec 32) :
    ((isBanned T (Machine.run (step T) (start T now) as) ⟨a, 32⟩ false).1 = some true ↔
      ∃ m, Active (Machine.run (step T) (start T now) as) ⟨a, 32⟩ m) ↔
      Honoured content (Machine.run (step T) (start T now) as) ⟨a, 32⟩ := by
  have hstart : Kept content (start T now).store := by
    refine ⟨fun w m hm => ?_, fun m => rfl, fun m v hv => ?_⟩
    · unfold start Store.empty at hm
      rw [hT.empty] at hm
      cases hm
    · cases hv
  have hkept : Kept content (Machine.run (step T) (start T now) as).store :=
    Machine.run_inv (P := fun s : State τ => Kept content s.store)
      (fun _ a h => h.step hT a) hstart as
  rw [isBanned_iff hT hkept (Nat.zero_lt_succ 31)]
  constructor
  · intro h hactive
    exact h.mpr hactive
  · intro h
    exact ⟨fun ⟨m, hm⟩ => ⟨m, hm.2.1⟩, h⟩

/-- A table that is the map itself. -/
def mapTable : Table (WordMap Prefix) where
  empty := Radix.empty
  insert := fun t p m => put p.bits m t
  erase := fun t p => drop p.bits t
  lookup := fun t ip => covers t ip.bits

theorem mapTable_exact : mapTable.Exact id :=
  ⟨rfl, fun _ _ _ => rfl, fun _ _ => rfl, fun _ _ _ => rfl⟩

/-- A network is banned for long, a part of it for a short time, which ends. -/
def nestedBans : List Action :=
  [.ban ⟨0x0A000000, 8⟩ (some 1000) none none none none "",
    .ban ⟨0x0A010000, 16⟩ (some 10) none none none none "", .time 100]

/-- An address in the part is let in, though the ban of the network goes on. -/
theorem shadowed_ban :
    ¬ ((isBanned mapTable (Machine.run (step mapTable) (start mapTable 0) nestedBans)
        ⟨0x0A010203, 32⟩ false).1 = some true ↔
      ∃ m,
        Active (Machine.run (step mapTable) (start mapTable 0) nestedBans) ⟨0x0A010203, 32⟩ m) := by
  intro h
  have hbanned :=
    h.mpr ⟨⟨0x0A000000, 8⟩, by decide +kernel, 1000, by decide +kernel, by decide +kernel⟩
  exact absurd hbanned (by decide +kernel)

/-- A network is banned for a short time, which ends, a part of it for long. -/
def overlappingBans : List Action :=
  [.ban ⟨0x0A000000, 8⟩ (some 10) none none none none "",
    .ban ⟨0x0A010000, 16⟩ (some 1000) none none none none "", .time 100]

/-- The ban of the part goes on. -/
theorem banned_iff_overlapping :
    (isBanned mapTable (Machine.run (step mapTable) (start mapTable 0) overlappingBans)
        ⟨0x0A010203, 32⟩ false).1 = some true ↔
      ∃ m, Active (Machine.run (step mapTable) (start mapTable 0) overlappingBans)
        ⟨0x0A010203, 32⟩ m := by
  refine (banned_iff mapTable_exact 0 overlappingBans 0x0A010203).mpr fun _ =>
    ⟨⟨0x0A010000, 16⟩, by decide +kernel, ⟨by decide +kernel, 1000, by decide +kernel,
      by decide +kernel⟩, fun m' hm' hfront hlonger => ?_⟩
  have hnothing : ∀ k < 33, 16 < k →
      (Machine.run (step mapTable) (start mapTable 0) overlappingBans).store.ipmaskVarsByIpmask
        ((Prefix.mk 0x0A010203 32).bits.take k) = none := by decide +kernel
  have hsixteen : (Prefix.mk 0x0A010000 16).bits.length = 16 := by decide
  have hlength : m'.bits.length ≤ 32 := hfront.length_le.trans_eq (by decide)
  rw [List.prefix_iff_eq_take.mp hfront, id, hnothing m'.bits.length (by omega) (by omega)] at hm'
  cases hm'

end Bans

end Vars

end Zuckerserv
