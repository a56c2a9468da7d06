import Mathlib.Data.List.AList
import Mathlib.Logic.Function.Basic
import Zuckerserv.Net.PrefixErase

/-!
# Variables of masks

The scripts keep variables for masks of addresses, in three views: the variables of each mask, the
masks by prefix, and the masks and values by the name of the variable.

* `Table` — the operations of a table of prefixes.
* `Store`, `setIpVar`, `ipVars`, `ipVarInstances` — the views, and how they are kept and read.
* `lookup_merge` — which value is found where several masks have the variable.
-/

namespace Zuckerserv

namespace Vars

open Net Radix

/-- A value of a variable. -/
inductive Value
  | boolean (b : Bool)
  | number (n : Int)
  | string (s : String)
  deriving DecidableEq

/-- A value counts as true unless it is `nil` or `false`. -/
def truthy : Option Value → Bool
  | none => false
  | some (.boolean b) => b
  | some _ => true

/-- The variables of a mask. -/
abbrev Vars := AList fun _ : String => Value

/-- The operations of an `ipmask_table`. What it has at a prefix is the mask whose variables it
refers to. -/
structure Table (τ : Type) where
  empty : τ
  insert : τ → Prefix → Prefix → τ
  erase : τ → Prefix → τ
  lookup : τ → Prefix → List Prefix

/-- The table as it is. -/
def treeTable : Table (Net.Tree Prefix) where
  empty := Net.Tree.root
  insert := Net.Tree.insert
  erase := Net.Tree.erase
  lookup := Net.Tree.lookup

/-- The three views. A mask is what its normalized string shows: the address as it was given, and
the number of bits. -/
structure Store (τ : Type) where
  ipmaskVars : Prefix → Option Vars
  ipmaskVarsByIpmask : τ
  ipmaskVarsByName : String → Option (List (Prefix × Value))

variable {τ : Type} (T : Table τ)

/-- Nothing is stored. -/
def Store.empty : Store τ := ⟨fun _ => none, T.empty, fun _ => none⟩

/-- The loop that removes the instances of a mask. The instance behind one that is removed moves
into its place, and is passed over. -/
def removeInstances (ipmask : Prefix) : List (Prefix × Value) → List (Prefix × Value)
  | [] => []
  | instance1 :: rest =>
    if instance1.1 = ipmask then
      match rest with
      | [] => []
      | next :: rest => next :: removeInstances ipmask rest
    else instance1 :: removeInstances ipmask rest

/-- The masks by name after a value of a mask changes. -/
def updateByName (by_name : String → Option (List (Prefix × Value))) (ipmask : Prefix)
    (name : String) (existing_value value : Option Value) :
    String → Option (List (Prefix × Value)) :=
  if truthy existing_value then
    if ¬ truthy value then
      Function.update by_name name ((by_name name).map (removeInstances ipmask))
    else by_name
  else
    match value with
    | none => by_name
    | some v =>
      if truthy value then
        Function.update by_name name (some ((by_name name).getD [] ++ [(ipmask, v)]))
      else by_name

/-- `vars[name] = value`. -/
def assign (vars : Vars) (name : String) : Option Value → Vars
  | none => vars.erase name
  | some v => vars.insert name v

/-- The variables of a mask, which are made where there are none yet. -/
def ensureVars (s : Store τ) (ipmask : Prefix) : Store τ :=
  match s.ipmaskVars ipmask with
  | some _ => s
  | none =>
    { s with
      ipmaskVars := Function.update s.ipmaskVars ipmask (some ∅)
      ipmaskVarsByIpmask := T.insert s.ipmaskVarsByIpmask ipmask ipmask }

/-- `server.set_ip_var(ipmask, name, value)`. -/
def setIpVar (s : Store τ) (ipmask : Prefix) (name : String) (value : Option Value) : Store τ :=
  let s := ensureVars T s ipmask
  let vars := (s.ipmaskVars ipmask).getD ∅
  let existing_value := vars.lookup name
  if value = existing_value then s
  else
    let by_name := updateByName s.ipmaskVarsByName ipmask name existing_value value
    let vars := assign vars name value
    if truthy value = false ∧ vars.entries = [] then
      { ipmaskVars := Function.update s.ipmaskVars ipmask none
        ipmaskVarsByIpmask := T.erase s.ipmaskVarsByIpmask ipmask
        ipmaskVarsByName := by_name }
    else
      { s with
        ipmaskVars := Function.update s.ipmaskVars ipmask (some vars)
        ipmaskVarsByName := by_name }

/-- The loop that merges the variables of the matches: those of a later match replace those of an
earlier one. -/
def merge (l : List Vars) : Vars := l.foldl (fun vars found => found ∪ vars) ∅

/-- `server.ip_vars(ipmask)`. -/
def ipVars (s : Store τ) (ipmask : Prefix) : Vars :=
  merge ((T.lookup s.ipmaskVarsByIpmask ipmask).map fun m => (s.ipmaskVars m).getD ∅)

/-- `server.ip_var_instances(name)`. -/
def ipVarInstances (s : Store τ) (name : String) : List (Prefix × Value) :=
  (s.ipmaskVarsByName name).getD []

/-! ## Lemmas -/

/-- The value that a store has for a mask. -/
def Store.value {τ : Type} (s : Store τ) (m : Prefix) (name : String) : Option Value :=
  (s.ipmaskVars m).bind (·.lookup name)

/-- The last one that has the variable gives its value. -/
theorem lookup_merge (l : List Vars) (name : String) :
    (merge l).lookup name = (l.filterMap fun vars => vars.lookup name).getLast? := by
  induction l using List.reverseRecOn with
  | nil => rfl
  | append_singleton l vars ih =>
    rw [merge, List.foldl_concat, List.filterMap_append]
    cases hvars : vars.lookup name with
    | none =>
      rw [AList.lookup_union_right (AList.lookup_eq_none.mp hvars),
        List.filterMap_cons_none hvars, List.filterMap_nil, List.append_nil]
      exact ih
    | some v =>
      rw [AList.lookup_union_left (AList.lookup_isSome.mp (by rw [hvars]; rfl)), hvars,
        List.filterMap_cons_some hvars, List.filterMap_nil, List.getLast?_concat]

/-- What an assignment changes. -/
theorem lookup_assign (vars : Vars) (name : String) (value : Option Value) (name' : String) :
    (assign vars name value).lookup name' = if name' = name then value else vars.lookup name' := by
  cases value with
  | none =>
    by_cases h : name' = name
    · rw [if_pos h, h]
      exact AList.lookup_erase name vars
    · rw [if_neg h]
      exact AList.lookup_erase_ne h
  | some v =>
    by_cases h : name' = name
    · rw [if_pos h, h]
      exact AList.lookup_insert vars
    · rw [if_neg h]
      exact AList.lookup_insert_ne h

theorem lookup_of_entries_nil {vars : Vars} (h : vars.entries = []) (name : String) :
    vars.lookup name = none := by
  rw [AList.lookup, h]
  rfl

/-- The loop removes a mask that is there once. -/
theorem removeInstances_eq_filter {l : List (Prefix × Value)} (m : Prefix)
    (hl : (l.map (·.1)).Nodup) : removeInstances m l = l.filter fun i => i.1 ≠ m := by
  induction l with
  | nil => rfl
  | cons i l ih =>
    obtain ⟨hi, hl⟩ := List.nodup_cons.mp hl
    rw [removeInstances.eq_def]
    dsimp only
    split
    · rename_i him
      have hkeep : l.filter (fun i => i.1 ≠ m) = l := by
        refine List.filter_eq_self.mpr fun j hj => decide_eq_true fun hjm => hi ?_
        exact List.mem_map.mpr ⟨j, hj, hjm.trans him.symm⟩
      rw [List.filter_cons_of_neg (by simp [him]), hkeep]
      cases l with
      | nil => rfl
      | cons j l =>
        have htail : removeInstances m l = l := by
          have hj := ih hl
          rw [hkeep, removeInstances.eq_def] at hj
          have hjm : ¬ j.1 = m := fun h => hi (by simp [h, him])
          dsimp only at hj
          rw [if_neg hjm] at hj
          exact (List.cons.inj hj).2
        exact congrArg (j :: ·) htail
    · rename_i him
      rw [List.filter_cons_of_pos (by simp [him]), ih hl]

/-! ## The values after an assignment -/

variable {s : Store τ} {ipmask : Prefix}

theorem ensureVars_self (s : Store τ) (ipmask : Prefix) :
    (ensureVars T s ipmask).ipmaskVars ipmask = some ((s.ipmaskVars ipmask).getD ∅) := by
  unfold ensureVars
  cases h : s.ipmaskVars ipmask with
  | none => exact Function.update_self ..
  | some vars => exact h

/-- Variables that are made have no value yet. -/
theorem value_ensureVars (s : Store τ) (ipmask m : Prefix) (name : String) :
    (ensureVars T s ipmask).value m name = s.value m name := by
  unfold ensureVars
  cases h : s.ipmaskVars ipmask with
  | some vars => rfl
  | none =>
    unfold Store.value
    dsimp only
    by_cases hm : m = ipmask
    · rw [hm, Function.update_self, h]
      rfl
    · rw [Function.update_of_ne hm]

/-- The values of a store in which the variables of a mask are replaced. -/
theorem value_update {tree : τ} {by_name : String → Option (List (Prefix × Value))}
    (s : Store τ) (ipmask : Prefix) (vars : Option Vars) (name : String) (v : Option Value)
    (hvars : ∀ name', vars.bind (·.lookup name') = if name' = name then v else s.value ipmask name')
    (m : Prefix) (name' : String) :
    (Store.mk (Function.update s.ipmaskVars ipmask vars) tree by_name).value m name' =
      if m = ipmask ∧ name' = name then v else s.value m name' := by
  unfold Store.value
  dsimp only
  by_cases hm : m = ipmask
  · subst hm
    rw [Function.update_self, hvars]
    exact if_congr (and_iff_right rfl).symm rfl rfl
  · rw [Function.update_of_ne hm, if_neg fun h => hm h.1]

/-- An assignment changes the value of the mask, and no other. -/
theorem value_setIpVar (s : Store τ) (ipmask : Prefix) (name : String) (v : Option Value)
    (m : Prefix) (name' : String) :
    (setIpVar T s ipmask name v).value m name' =
      if m = ipmask ∧ name' = name then v else s.value m name' := by
  have hself := ensureVars_self T s ipmask
  have hvalue (name' : String) :
      s.value ipmask name' = ((s.ipmaskVars ipmask).getD ∅).lookup name' := by
    rw [← value_ensureVars T s ipmask, Store.value, hself]
    rfl
  have hother : (if m = ipmask ∧ name' = name then v else s.value m name') =
      if m = ipmask ∧ name' = name then v else (ensureVars T s ipmask).value m name' := by
    rw [value_ensureVars]
  have hassign (name' : String) :
      (assign ((s.ipmaskVars ipmask).getD ∅) name v).lookup name' =
        if name' = name then v else (ensureVars T s ipmask).value ipmask name' := by
    rw [lookup_assign, value_ensureVars, hvalue]
  unfold setIpVar
  dsimp only
  rw [hself, Option.getD_some]
  split
  · rename_i hsame
    rw [value_ensureVars]
    split
    · rename_i hm
      rw [hm.1, hm.2, hvalue, hsame]
    · rfl
  · rw [hother]
    split
    · rename_i hempty
      refine value_update _ ipmask none name v (fun name' => ?_) m name'
      rw [← hassign, lookup_of_entries_nil hempty.2]
      rfl
    · exact value_update _ ipmask (some _) name v hassign m name'

end Vars

end Zuckerserv
