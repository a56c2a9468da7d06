import Zuckerserv.Script.IpVars

/-!
# The views of the variables

Each assignment is to change all the views: the instances of a name are the masks whose value
counts as true, and an address has the values of the longest masks that cover it.

* `Ledger` — the store, and what has been assigned.
* `Agree` — the views show what has been assigned.
* `Sound` — an assignment that no view misses.
* `views_agree` — the views agree as long as all assignments are sound.
-/

namespace Zuckerserv

namespace Vars

open Net Radix Machine

/-- A call of `set_ip_var`. -/
structure Call where
  ipmask : Prefix
  name : String
  value : Option Value

/-- The store, and the value that was assigned last to each variable of each mask. -/
structure Ledger where
  store : Store (Net.Tree Prefix)
  current : List Bool → String → Option Value

/-- The assigned values after one more assignment. -/
def record (current : List Bool → String → Option Value) (c : Call) :
    List Bool → String → Option Value := fun w name =>
  if w = c.ipmask.bits ∧ name = c.name then c.value else current w name

/-- One assignment. -/
def step (l : Ledger) (c : Call) : Ledger :=
  ⟨setIpVar treeTable l.store c.ipmask c.name c.value, record l.current c⟩

/-- Nothing is assigned. -/
def start : Ledger := ⟨Store.empty treeTable, fun _ _ => none⟩

/-- The mask is one of an address, and not empty. -/
def Call.Proper (c : Call) : Prop := 0 < c.ipmask.mask ∧ c.ipmask.mask ≤ 32

/-- The views show what has been assigned. -/
structure Agree (l : Ledger) : Prop where
  once : ∀ name, ((ipVarInstances l.store name).map (·.1.bits)).Nodup
  instances : ∀ name w v, (∃ m, (m, v) ∈ ipVarInstances l.store name ∧ m.bits = w) ↔
    l.current w name = some v ∧ truthy (some v) = true
  /-- An address has the value of the longest mask that covers it and has the variable. -/
  vars : ∀ ip : Prefix, 0 < ip.mask → ∀ name,
    (ipVars treeTable l.store ip).lookup name = (covers (l.current · name) ip.bits).getLast?

/-- An assignment that no view misses. -/
structure Sound (l : Ledger) (c : Call) : Prop where
  /-- The mask is not stored with other bits beyond its length. -/
  spelling : ∀ m, (l.store.ipmaskVars m).isSome → m.bits = c.ipmask.bits → m = c.ipmask
  /-- A value that counts as true is not replaced by another. -/
  overwrite : truthy (l.store.value c.ipmask c.name) = true → truthy c.value = true →
    c.value = l.store.value c.ipmask c.name
  /-- A mask that loses its last variable can be erased. -/
  erasable : ∀ vars, l.store.ipmaskVars c.ipmask = some vars → c.value ≠ vars.lookup c.name →
    truthy c.value = false → (assign vars c.name c.value).entries = [] →
    l.store.ipmaskVarsByIpmask.Erasable c.ipmask

/-! ## The instances of a name -/

/-- The instances are the masks whose value counts as true. -/
def Lists (by_name : String → Option (List (Prefix × Value)))
    (value : Prefix → String → Option Value) : Prop :=
  ∀ name, (((by_name name).getD []).map (·.1)).Nodup ∧ ∀ m v,
    (m, v) ∈ (by_name name).getD [] ↔ value m name = some v ∧ truthy (some v) = true

variable {by_name : String → Option (List (Prefix × Value))}
  {value : Prefix → String → Option Value} {m : Prefix} {name : String} {v : Option Value}

/-- The values after one of them is assigned. -/
def assigned (value : Prefix → String → Option Value) (m : Prefix) (name : String)
    (v : Option Value) : Prefix → String → Option Value := fun m' name' =>
  if m' = m ∧ name' = name then v else value m' name'

theorem assigned_other {m' : Prefix} {name' : String} (h : ¬ (m' = m ∧ name' = name)) :
    assigned value m name v m' name' = value m' name' := if_neg h

theorem assigned_self : assigned value m name v m name = v := if_pos ⟨rfl, rfl⟩

/-- Where the instances of a name stay, a value may change that counts as false before and after. -/
theorem Lists.assigned_false (h : Lists by_name value) (hold : truthy (value m name) = false)
    (hnew : truthy v = false) : Lists by_name (assigned value m name v) := by
  intro name'
  refine ⟨(h name').1, fun m' v' => ?_⟩
  rw [(h name').2]
  by_cases hsame : m' = m ∧ name' = name
  · obtain ⟨rfl, rfl⟩ := hsame
    rw [assigned_self]
    constructor
    · rintro ⟨hv, htrue⟩
      rw [hv, htrue] at hold
      cases hold
    · rintro ⟨hv, htrue⟩
      rw [hv, htrue] at hnew
      cases hnew
  · rw [assigned_other hsame]

/-- The instances of the name lose the mask. -/
theorem Lists.remove (h : Lists by_name value) (hnew : truthy v = false) :
    Lists (Function.update by_name name ((by_name name).map (removeInstances m)))
      (assigned value m name v) := by
  intro name'
  by_cases hname : name' = name
  · subst hname
    obtain ⟨hnodup, hmem⟩ := h name'
    have hlist : ((by_name name').map (removeInstances m)).getD [] =
        ((by_name name').getD []).filter fun i => i.1 ≠ m := by
      rw [← removeInstances_eq_filter m hnodup]
      cases by_name name' <;> rfl
    rw [Function.update_self, hlist]
    refine ⟨hnodup.sublist (List.filter_sublist.map _), fun m' v' => ?_⟩
    rw [List.mem_filter, hmem]
    by_cases hm : m' = m
    · subst hm
      rw [assigned_self]
      constructor
      · rintro ⟨-, hne⟩
        exact absurd rfl (of_decide_eq_true hne)
      · rintro ⟨hv, htrue⟩
        rw [hv, htrue] at hnew
        cases hnew
    · rw [assigned_other fun hsame => hm hsame.1]
      exact ⟨fun hboth => hboth.1, fun hboth => ⟨hboth, decide_eq_true hm⟩⟩
  · rw [Function.update_of_ne hname]
    refine ⟨(h name').1, fun m' v' => ?_⟩
    rw [assigned_other fun hsame => hname hsame.2]
    exact (h name').2 m' v'

/-- The instances of the name get the mask. -/
theorem Lists.append (h : Lists by_name value) (hold : truthy (value m name) = false)
    {v : Value} (hnew : truthy (some v) = true) :
    Lists (Function.update by_name name (some ((by_name name).getD [] ++ [(m, v)])))
      (assigned value m name (some v)) := by
  intro name'
  by_cases hname : name' = name
  · subst hname
    obtain ⟨hnodup, hmem⟩ := h name'
    have hout : ∀ v', (m, v') ∉ (by_name name').getD [] := by
      intro v' hin
      obtain ⟨hv, htrue⟩ := (hmem m v').mp hin
      rw [hv, htrue] at hold
      cases hold
    rw [Function.update_self, Option.getD_some]
    refine ⟨?_, fun m' v' => ?_⟩
    · rw [List.map_append, List.nodup_append]
      refine ⟨hnodup, List.nodup_singleton _, fun a ha b hb hab => ?_⟩
      obtain ⟨i, hi, rfl⟩ := List.mem_map.mp ha
      rw [List.map_singleton, List.mem_singleton] at hb
      have him : i.1 = m := hab.trans hb
      exact hout i.2 (him ▸ hi)
    · rw [List.mem_append, List.mem_singleton, hmem]
      by_cases hm : m' = m
      · subst hm
        rw [assigned_self]
        constructor
        · rintro (hin | heq)
          · exact absurd ((hmem m' v').mpr hin) (hout v')
          · cases heq
            exact ⟨rfl, hnew⟩
        · rintro ⟨hv, -⟩
          exact .inr (by rw [Option.some.inj hv])
      · rw [assigned_other fun hsame => hm hsame.1]
        exact or_iff_left fun heq => hm (congrArg Prod.fst heq)
  · rw [Function.update_of_ne hname]
    refine ⟨(h name').1, fun m' v' => ?_⟩
    rw [assigned_other fun hsame => hname hsame.2]
    exact (h name').2 m' v'

/-- The masks by name after a value changes. -/
theorem Lists.update (h : Lists by_name value) (hne : v ≠ value m name)
    (hover : truthy (value m name) = true → truthy v = true → v = value m name) :
    Lists (updateByName by_name m name (value m name) v) (assigned value m name v) := by
  unfold updateByName
  split
  · rename_i hold
    have hnew : truthy v = false := Bool.eq_false_iff.mpr fun hnew => hne (hover hold hnew)
    rw [if_pos (by rw [hnew]; exact Bool.false_ne_true)]
    exact h.remove hnew
  · rename_i hold
    have hold := Bool.eq_false_iff.mpr hold
    cases v with
    | none => exact h.assigned_false hold rfl
    | some v =>
      dsimp only
      split
      · rename_i hnew
        exact h.append hold hnew
      · rename_i hnew
        exact h.assigned_false hold (Bool.eq_false_iff.mpr hnew)

/-! ## One assignment -/

/-- The views belong together. -/
structure Kept (l : Ledger) : Prop where
  table : l.store.ipmaskVarsByIpmask.IsTable
  found : ∀ m, (l.store.ipmaskVars m).isSome →
    l.store.ipmaskVarsByIpmask.get m.bits = some m
  kept : ∀ w m, l.store.ipmaskVarsByIpmask.get w = some m →
    m.bits = w ∧ (l.store.ipmaskVars m).isSome
  current : ∀ w name, l.current w name =
    (l.store.ipmaskVarsByIpmask.get w).bind fun m => l.store.value m name
  lists : Lists l.store.ipmaskVarsByName l.store.value

variable {l : Ledger} {c : Call}

theorem isSome_of_value {s : Store (Net.Tree Prefix)} {v : Value} (h : s.value m name = some v) :
    (s.ipmaskVars m).isSome := by
  unfold Store.value at h
  cases hm : s.ipmaskVars m with
  | none =>
    rw [hm] at h
    cases h
  | some vars => rfl

/-- Views that belong together show what has been assigned. -/
theorem Kept.agree (h : Kept l) : Agree l := by
  refine ⟨fun name => ?_, fun name w v => ?_, fun ip hip name => ?_⟩
  · obtain ⟨hnodup, hmem⟩ := h.lists name
    have hsome {i : Prefix × Value} (hi : i ∈ ipVarInstances l.store name) :
        l.store.ipmaskVarsByIpmask.get i.1.bits = some i.1 :=
      h.found i.1 (isSome_of_value ((hmem i.1 i.2).mp hi).1)
    have hbits : (ipVarInstances l.store name).map (·.1.bits) =
        ((ipVarInstances l.store name).map (·.1)).map (·.bits) := by
      rw [List.map_map]
      rfl
    rw [hbits]
    refine List.Nodup.map_on (fun m hm m' hm' heq => ?_) hnodup
    obtain ⟨i, hi, rfl⟩ := List.mem_map.mp hm
    obtain ⟨j, hj, rfl⟩ := List.mem_map.mp hm'
    have hsame := hsome hi
    rw [heq, hsome hj] at hsame
    exact (Option.some.inj hsame).symm
  · constructor
    · rintro ⟨m, hm, rfl⟩
      obtain ⟨hv, htrue⟩ := ((h.lists name).2 m v).mp hm
      refine ⟨?_, htrue⟩
      rw [h.current, h.found m (isSome_of_value hv)]
      exact hv
    · rintro ⟨hv, htrue⟩
      rw [h.current] at hv
      obtain ⟨m, hm, hvalue⟩ := Option.bind_eq_some_iff.mp hv
      exact ⟨m, ((h.lists name).2 m v).mpr ⟨hvalue, htrue⟩, (h.kept w m hm).1⟩
  · have hlookup : treeTable.lookup l.store.ipmaskVarsByIpmask ip =
        covers l.store.ipmaskVarsByIpmask.get ip.bits :=
      Net.Tree.lookup_eq_covers h.table.toIsRoot hip
    unfold ipVars
    rw [lookup_merge, hlookup]
    unfold covers
    rw [List.filterMap_map, List.filterMap_filterMap]
    congr 1
    refine List.filterMap_congr fun w _ => ?_
    rw [h.current]
    refine congrArg _ (funext fun m => ?_)
    unfold Store.value
    dsimp only [Function.comp]
    cases l.store.ipmaskVars m <;> rfl

/-- The variables of the mask are there. -/
theorem Kept.ensure (h : Kept l) (hc : c.Proper) (hspelling : ∀ m,
    (l.store.ipmaskVars m).isSome → m.bits = c.ipmask.bits → m = c.ipmask) :
    Kept { l with store := ensureVars treeTable l.store c.ipmask } := by
  unfold ensureVars
  split
  · exact h
  · rename_i hnone
    have hfree : l.store.ipmaskVarsByIpmask.get c.ipmask.bits = none := by
      cases hget : l.store.ipmaskVarsByIpmask.get c.ipmask.bits with
      | none => rfl
      | some m =>
        obtain ⟨hbits, hsome⟩ := h.kept _ m hget
        rw [hspelling m hsome hbits, hnone] at hsome
        cases hsome
    have hget := Net.Tree.get_insert h.table.wellFormed c.ipmask c.ipmask
    have hvalue : ∀ m name, (Store.mk (Function.update l.store.ipmaskVars c.ipmask (some ∅))
        (treeTable.insert l.store.ipmaskVarsByIpmask c.ipmask c.ipmask)
        l.store.ipmaskVarsByName).value m name = l.store.value m name := by
      intro m name
      unfold Store.value
      dsimp only
      by_cases hm : m = c.ipmask
      · rw [hm, Function.update_self, hnone]
        rfl
      · rw [Function.update_of_ne hm]
    refine ⟨h.table.step (.insert c.ipmask c.ipmask) hc, fun m hm => ?_, fun w m hm => ?_,
      fun w name => ?_, fun name => ?_⟩
    · dsimp only at hm ⊢
      refine (congrFun hget m.bits).trans ?_
      unfold put
      by_cases hsame : m = c.ipmask
      · rw [if_pos (by rw [hsame]), hsame]
      · rw [Function.update_of_ne hsame] at hm
        rw [if_neg fun hbits => hsame (hspelling m hm hbits)]
        exact h.found m hm
    · have hm : put c.ipmask.bits c.ipmask l.store.ipmaskVarsByIpmask.get w = some m :=
        (congrFun hget w).symm.trans hm
      unfold put at hm
      dsimp only
      split at hm
      · rename_i hw
        cases hm
        refine ⟨hw.symm, ?_⟩
        rw [Function.update_self]
        rfl
      · obtain ⟨hbits, hsome⟩ := h.kept w m hm
        refine ⟨hbits, ?_⟩
        by_cases hsame : m = c.ipmask
        · rw [hsame, Function.update_self]
          rfl
        · rw [Function.update_of_ne hsame]
          exact hsome
    · refine (h.current w name).trans ?_
      have hw : (treeTable.insert l.store.ipmaskVarsByIpmask c.ipmask c.ipmask).get w = _ :=
        congrFun hget w
      dsimp only
      rw [hw]
      unfold put
      split
      · rename_i hw
        rw [hw, hfree, Option.bind_some, hvalue]
        unfold Store.value
        rw [hnone]
        rfl
      · refine congrArg _ (funext fun m => (hvalue m name).symm)
    · obtain ⟨hnodup, hmem⟩ := h.lists name
      refine ⟨hnodup, fun m v => ?_⟩
      rw [hvalue]
      exact hmem m v

/-! ### An assignment to a mask whose variables are there -/

section Assign

variable {vars : Vars} (hvars : l.store.ipmaskVars c.ipmask = some vars)

/-- What is found under other bits is another mask. -/
theorem Kept.mask_ne (h : Kept l) {w : List Bool} {m : Prefix} (hw : ¬ w = c.ipmask.bits)
    (hm : l.store.ipmaskVarsByIpmask.get w = some m) : m ≠ c.ipmask := by
  rintro rfl
  exact hw (h.kept w _ hm).1.symm

/-- What other masks show stays as it is. -/
theorem Kept.current_other (h : Kept l) {value : Prefix → String → Option Value} {w : List Bool}
    {name : String} (hw : ¬ w = c.ipmask.bits)
    (hvalue : ∀ m name, value m name = assigned l.store.value c.ipmask c.name c.value m name) :
    record l.current c w name =
      (l.store.ipmaskVarsByIpmask.get w).bind fun m => value m name := by
  unfold record
  rw [if_neg fun hsame => hw hsame.1, h.current]
  cases hget : l.store.ipmaskVarsByIpmask.get w with
  | none => rfl
  | some m =>
    rw [Option.bind_some, Option.bind_some, hvalue,
      assigned_other fun hsame => h.mask_ne hw hget hsame.1]

include hvars

theorem value_of_vars (name : String) : l.store.value c.ipmask name = vars.lookup name := by
  unfold Store.value
  rw [hvars]
  rfl

theorem Kept.lists_assign (h : Kept l) (hne : c.value ≠ vars.lookup c.name) (hsound : Sound l c) :
    Lists (updateByName l.store.ipmaskVarsByName c.ipmask c.name (vars.lookup c.name) c.value)
      (assigned l.store.value c.ipmask c.name c.value) := by
  have hupdate (hne : c.value ≠ l.store.value c.ipmask c.name) :=
    h.lists.update hne hsound.overwrite
  rw [value_of_vars hvars] at hupdate
  exact hupdate hne

/-- The mask has no variable left, and goes. -/
theorem Kept.assign_last (h : Kept l) (hne : c.value ≠ vars.lookup c.name) (hc : c.Proper)
    (hsound : Sound l c) (hfalse : truthy c.value = false)
    (hentries : (assign vars c.name c.value).entries = []) :
    Kept ⟨⟨Function.update l.store.ipmaskVars c.ipmask none,
      treeTable.erase l.store.ipmaskVarsByIpmask c.ipmask,
      updateByName l.store.ipmaskVarsByName c.ipmask c.name (vars.lookup c.name) c.value⟩,
      record l.current c⟩ := by
  have hlists := h.lists_assign hvars hne hsound
  have hfound := h.found c.ipmask (by rw [hvars]; rfl)
  have hnone : c.value = none := by
    have hself := lookup_assign vars c.name c.value c.name
    rw [lookup_of_entries_nil hentries, if_pos rfl] at hself
    exact hself.symm
  have hrest (name : String) (hname : name ≠ c.name) : vars.lookup name = none := by
    have hself := lookup_assign vars c.name c.value name
    rw [lookup_of_entries_nil hentries, if_neg hname] at hself
    exact hself.symm
  have herase : (treeTable.erase l.store.ipmaskVarsByIpmask c.ipmask).get =
      drop c.ipmask.bits l.store.ipmaskVarsByIpmask.get :=
    (Net.Tree.erase_eq_drop_iff h.table hc.1).mpr
      (hsound.erasable vars hvars hne hfalse hentries)
  have hvalue : ∀ m name, (Store.mk (Function.update l.store.ipmaskVars c.ipmask none)
      (treeTable.erase l.store.ipmaskVarsByIpmask c.ipmask)
      (updateByName l.store.ipmaskVarsByName c.ipmask c.name (vars.lookup c.name)
        c.value)).value m name = assigned l.store.value c.ipmask c.name c.value m name := by
    refine value_update l.store c.ipmask none c.name c.value fun name => ?_
    rw [Option.bind_none, value_of_vars hvars]
    split
    · exact hnone.symm
    · rename_i hname
      exact (hrest name hname).symm
  refine ⟨h.table.step (.erase c.ipmask) hc, fun m hm => ?_, fun w m hm => ?_,
    fun w name => ?_, fun name => ?_⟩
  · dsimp only at hm ⊢
    have hsame : m ≠ c.ipmask := by
      rintro rfl
      rw [Function.update_self] at hm
      cases hm
    rw [Function.update_of_ne hsame] at hm
    rw [herase]
    unfold drop
    rw [if_neg fun hbits => hsame (hsound.spelling m hm hbits)]
    exact h.found m hm
  · dsimp only at hm ⊢
    rw [herase] at hm
    unfold drop at hm
    split at hm
    · cases hm
    · rename_i hw
      rw [Function.update_of_ne (h.mask_ne hw hm)]
      exact h.kept w m hm
  · dsimp only
    rw [herase]
    unfold drop
    by_cases hw : w = c.ipmask.bits
    · rw [if_pos hw, Option.bind_none]
      unfold record
      by_cases hname : name = c.name
      · rw [if_pos ⟨hw, hname⟩, hnone]
      · rw [if_neg fun hsame => hname hsame.2, h.current, hw, hfound, Option.bind_some,
          value_of_vars hvars]
        exact hrest name hname
    · rw [if_neg hw]
      exact h.current_other hw hvalue
  · refine ⟨(hlists name).1, fun m v => ?_⟩
    rw [hvalue]
    exact (hlists name).2 m v

/-- The mask keeps a variable. -/
theorem Kept.assign_more (h : Kept l) (hne : c.value ≠ vars.lookup c.name) (hsound : Sound l c) :
    Kept ⟨{ l.store with
      ipmaskVars := Function.update l.store.ipmaskVars c.ipmask
        (some (Vars.assign vars c.name c.value))
      ipmaskVarsByName := updateByName l.store.ipmaskVarsByName c.ipmask c.name
        (vars.lookup c.name) c.value }, record l.current c⟩ := by
  have hlists := h.lists_assign hvars hne hsound
  have hfound := h.found c.ipmask (by rw [hvars]; rfl)
  have hvalue : ∀ m name, (Store.mk
      (Function.update l.store.ipmaskVars c.ipmask (some (Vars.assign vars c.name c.value)))
      l.store.ipmaskVarsByIpmask
      (updateByName l.store.ipmaskVarsByName c.ipmask c.name (vars.lookup c.name)
        c.value)).value m name = assigned l.store.value c.ipmask c.name c.value m name := by
    refine value_update l.store c.ipmask _ c.name c.value fun name => ?_
    rw [Option.bind_some, lookup_assign, value_of_vars hvars]
  have hsome : ∀ m, (Function.update l.store.ipmaskVars c.ipmask
      (some (Vars.assign vars c.name c.value)) m).isSome = (l.store.ipmaskVars m).isSome := by
    intro m
    by_cases hm : m = c.ipmask
    · rw [hm, Function.update_self, hvars]
      rfl
    · rw [Function.update_of_ne hm]
  refine ⟨h.table, fun m hm => h.found m ((hsome m).symm.trans hm), fun w m hm => ?_,
    fun w name => ?_, fun name => ?_⟩
  · obtain ⟨hbits, hm⟩ := h.kept w m hm
    exact ⟨hbits, (hsome m).trans hm⟩
  · dsimp only
    by_cases hw : w = c.ipmask.bits
    · unfold record
      rw [hw, hfound, Option.bind_some, hvalue]
      by_cases hname : name = c.name
      · rw [if_pos ⟨rfl, hname⟩, hname, assigned_self]
      · rw [if_neg fun hsame => hname hsame.2, assigned_other fun hsame => hname hsame.2,
          h.current, hfound]
        rfl
    · exact h.current_other hw hvalue
  · refine ⟨(hlists name).1, fun m v => ?_⟩
    rw [hvalue]
    exact (hlists name).2 m v

theorem Kept.assign (h : Kept l) (hne : c.value ≠ vars.lookup c.name) (hc : c.Proper)
    (hsound : Sound l c) :
    Kept ⟨setIpVar treeTable l.store c.ipmask c.name c.value, record l.current c⟩ := by
  have hensure : ensureVars treeTable l.store c.ipmask = l.store := by
    unfold ensureVars
    rw [hvars]
  unfold setIpVar
  rw [hensure]
  dsimp only
  rw [hvars, Option.getD_some, if_neg hne]
  split
  · rename_i hempty
    exact h.assign_last hvars hne hc hsound hempty.1 hempty.2
  · exact h.assign_more hvars hne hsound

end Assign

/-- An assignment of the value that is there. -/
theorem Kept.same (h : Kept l) (hsame : c.value = l.store.value c.ipmask c.name)
    (hfound : l.store.ipmaskVarsByIpmask.get c.ipmask.bits = some c.ipmask) :
    Kept ⟨l.store, record l.current c⟩ := by
  refine ⟨h.table, h.found, h.kept, fun w name => ?_, h.lists⟩
  dsimp only
  unfold record
  split
  · rename_i hself
    rw [hself.1, hself.2, hfound, hsame]
    rfl
  · exact h.current w name

/-- A sound assignment keeps the views together. -/
theorem Kept.step (l : Ledger) (c : Call) (hsound : c.Proper ∧ Sound l c) (h : Kept l) :
    Kept (step l c) := by
  obtain ⟨hc, hsound⟩ := hsound
  have hensured := h.ensure hc hsound.spelling
  cases hvars : l.store.ipmaskVars c.ipmask with
  | some vars =>
    have hvalue : l.store.value c.ipmask c.name = vars.lookup c.name := by
      unfold Store.value
      rw [hvars]
      rfl
    by_cases hsame : c.value = vars.lookup c.name
    · have hstore : setIpVar treeTable l.store c.ipmask c.name c.value = l.store := by
        unfold setIpVar ensureVars
        rw [hvars]
        dsimp only
        rw [hvars, Option.getD_some, if_pos hsame]
      have hkept := h.same (hsame.trans hvalue.symm) (h.found c.ipmask (by rw [hvars]; rfl))
      unfold Vars.step
      rw [hstore]
      exact hkept
    · exact h.assign hvars hsame hc hsound
  | none =>
    -- The variables of the mask are made first, and have no value yet.
    have hmade : ensureVars treeTable l.store c.ipmask =
        { l.store with
          ipmaskVars := Function.update l.store.ipmaskVars c.ipmask (some ∅)
          ipmaskVarsByIpmask :=
            treeTable.insert l.store.ipmaskVarsByIpmask c.ipmask c.ipmask } := by
      unfold ensureVars
      rw [hvars]
    have hvars' : (ensureVars treeTable l.store c.ipmask).ipmaskVars c.ipmask = some ∅ := by
      rw [hmade]
      exact Function.update_self ..
    have hvalue' : (ensureVars treeTable l.store c.ipmask).value c.ipmask c.name = none := by
      unfold Store.value
      rw [hvars']
      rfl
    have htwice : setIpVar treeTable l.store c.ipmask c.name c.value =
        setIpVar treeTable (ensureVars treeTable l.store c.ipmask) c.ipmask c.name c.value := by
      unfold setIpVar
      have hagain : ensureVars treeTable (ensureVars treeTable l.store c.ipmask) c.ipmask =
          ensureVars treeTable l.store c.ipmask := by
        rw [ensureVars, hvars']
      rw [hagain]
    have hsound' : Sound { l with store := ensureVars treeTable l.store c.ipmask } c := by
      refine ⟨fun m hm hbits => ?_, fun hold => ?_, fun vars hsome hne hfalse hentries => ?_⟩
      · by_contra hother
        rw [hmade] at hm
        dsimp only at hm
        rw [Function.update_of_ne hother] at hm
        exact hother (hsound.spelling m hm hbits)
      · dsimp only at hold
        rw [hvalue'] at hold
        cases hold
      · dsimp only at hsome
        rw [hvars'] at hsome
        cases hsome
        have hself := lookup_assign ∅ c.name c.value c.name
        rw [lookup_of_entries_nil hentries, if_pos rfl] at hself
        exact absurd hself.symm hne
    by_cases hsame : c.value = none
    · have hstore : setIpVar treeTable l.store c.ipmask c.name c.value =
          ensureVars treeTable l.store c.ipmask := by
        unfold setIpVar
        dsimp only
        rw [hvars', Option.getD_some, AList.lookup_empty, if_pos hsame]
      have hkept := hensured.same (hsame.trans hvalue'.symm)
        (hensured.found c.ipmask (by dsimp only; rw [hvars']; rfl))
      unfold Vars.step
      rw [hstore]
      exact hkept
    · have hkept := hensured.assign hvars' hsame hc hsound'
      unfold Vars.step
      rw [htwice]
      exact hkept

theorem kept_start : Kept start := by
  have hget (w : List Bool) : (Net.Tree.root : Net.Tree Prefix).get w = none := by
    cases w with
    | nil => rfl
    | cons b w => cases b <;> rfl
  refine ⟨⟨Net.Tree.isRoot_root, Nat.zero_le _, .inl ⟨rfl, rfl⟩, trivial, trivial⟩, fun m hm => ?_,
    fun w m hm => ?_, fun w name => ?_, fun name => ⟨List.nodup_nil, fun m v => ?_⟩⟩
  · cases hm
  · cases (hget w).symm.trans hm
  · have hnone : start.store.ipmaskVarsByIpmask.get w = none := hget w
    rw [hnone]
    rfl
  · exact iff_of_false List.not_mem_nil fun h => by cases h.1

/-- In every run of sound assignments, the views show what has been assigned, in all states. -/
theorem views_agree (calls : List Call) (hproper : ∀ c ∈ calls, c.Proper)
    (hsound : Along Sound step start calls) :
    ∀ bs cs, calls = bs ++ cs → Agree (Machine.run step start bs) := by
  rintro bs cs rfl
  have hboth := hsound.and_forall hproper
  exact ((along_append.mp hboth).1.inv Kept.step kept_start).agree

/-- Only the variables of the mask of a call change. -/
theorem ipmaskVars_setIpVar_of_ne {s : Store (Net.Tree Prefix)} {ipmask m : Prefix}
    (hm : m ≠ ipmask) (name : String) (value : Option Value) :
    (setIpVar treeTable s ipmask name value).ipmaskVars m = s.ipmaskVars m := by
  have hensure : (ensureVars treeTable s ipmask).ipmaskVars m = s.ipmaskVars m := by
    unfold ensureVars
    split
    · rfl
    · exact Function.update_of_ne hm _ _
  unfold setIpVar
  dsimp only
  split
  · exact hensure
  · split
    · exact (Function.update_of_ne hm _ _).trans hensure
    · exact (Function.update_of_ne hm _ _).trans hensure

/-- Only masks that have been assigned to are stored. -/
theorem assigned_of_isSome {l : Ledger} {calls : List Call} {m : Prefix}
    (h : ((Machine.run step l calls).store.ipmaskVars m).isSome) :
    (l.store.ipmaskVars m).isSome ∨ ∃ c ∈ calls, c.ipmask = m := by
  induction calls generalizing l with
  | nil => exact .inl h
  | cons c calls ih =>
    rcases ih h with h | ⟨d, hd, hm⟩
    · by_cases hm : m = c.ipmask
      · exact .inr ⟨c, List.mem_cons_self, hm.symm⟩
      · rw [step, ipmaskVars_setIpVar_of_ne hm] at h
        exact .inl h
    · exact .inr ⟨d, List.mem_cons_of_mem _ hd, hm⟩

/-- Two masks; the value of one of them is changed by way of `nil`, and removed. -/
def twoMasks : List Call :=
  [⟨⟨0x0A000000, 8⟩, "ban_expire", some (.number 1)⟩,
    ⟨⟨0x0A010000, 16⟩, "ban_expire", some (.number 5)⟩,
    ⟨⟨0x0A010000, 16⟩, "ban_expire", none⟩,
    ⟨⟨0x0A010000, 16⟩, "ban_expire", some (.number 2)⟩,
    ⟨⟨0x0A010000, 16⟩, "ban_expire", none⟩]

theorem views_agree_twoMasks : Agree (Machine.run step start twoMasks) := by
  refine views_agree twoMasks ?_ ?_ twoMasks [] rfl
  · simp [Call.Proper, twoMasks]
  have hspelling (n : Nat) (c : Call) (hc : c ∈ twoMasks) (m : Prefix)
      (hm : ((Machine.run step start (twoMasks.take n)).store.ipmaskVars m).isSome)
      (hbits : m.bits = c.ipmask.bits) : m = c.ipmask := by
    have hmasks : ∀ d ∈ twoMasks, ∀ c ∈ twoMasks,
        d.ipmask.bits = c.ipmask.bits → d.ipmask = c.ipmask := by decide +kernel
    rcases assigned_of_isSome hm with hnone | ⟨d, hd, rfl⟩
    · cases hnone
    · exact hmasks d (List.mem_of_mem_take hd) c hc hbits
  -- Nothing is stored below the mask that is erased.
  have hleaf (n : Nat)
      (hsome : ((Machine.run step start (twoMasks.take n)).store.ipmaskVarsByIpmask.get
        (Prefix.mk 0x0A010000 16).bits).isSome = true)
      (hfirst : ((Machine.run step start (twoMasks.take n)).store.ipmaskVarsByIpmask.find
        (Prefix.mk 0x0A010000 16).bits).hasFirst = false) :
      (Machine.run step start (twoMasks.take n)).store.ipmaskVarsByIpmask.Erasable
        ⟨0x0A010000, 16⟩ := .inr ⟨hsome, .inl hfirst⟩
  refine ⟨⟨hspelling 0 _ (by simp [twoMasks]), by decide +kernel, nofun⟩,
    ⟨hspelling 1 _ (by simp [twoMasks]), by decide +kernel, ?_⟩,
    ⟨hspelling 2 _ (by simp [twoMasks]), by decide +kernel, ?_⟩,
    ⟨hspelling 3 _ (by simp [twoMasks]), by decide +kernel, ?_⟩,
    ⟨hspelling 4 _ (by simp [twoMasks]), by decide +kernel, ?_⟩, trivial⟩
  · exact fun _ _ _ hfalse => absurd hfalse (by decide)
  · exact fun _ _ _ _ _ => hleaf 2 (by decide +kernel) (by decide +kernel)
  · exact fun _ _ _ hfalse => absurd hfalse (by decide)
  · exact fun _ _ _ _ _ => hleaf 4 (by decide +kernel) (by decide +kernel)

/-- Two values of a variable, one after the other. -/
def overwritten : List Call :=
  [⟨⟨0x0A000000, 8⟩, "ban_expire", some (.number 1)⟩,
    ⟨⟨0x0A000000, 8⟩, "ban_expire", some (.number 2)⟩]

/-- The instances of the name still show the first one. -/
theorem stale_instance : ¬ Agree (Machine.run step start overwritten) := by
  intro h
  have hstale := ((h.instances "ban_expire" (Prefix.mk 0x0A000000 8).bits (.number 1)).mp
    ⟨⟨0x0A000000, 8⟩, by decide +kernel, rfl⟩).1
  exact absurd hstale (by decide +kernel)

end Vars

end Zuckerserv
