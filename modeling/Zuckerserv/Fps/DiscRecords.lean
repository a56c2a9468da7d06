import Mathlib.Data.List.Basic
import Zuckerserv.Lib.Machine

/-!
# Records of disconnects

For every address the server keeps the times of its last disconnects, so that the messages about
them can be suppressed when there are too many. An update of the server removes the times that have
left the window; but where all of them have, it removes none.

* `clientdisconnect`, `serverupdate` — what is done to the records.
* `Held` — what the records are in any run.
* `kept_iff` — when the records are right after every update.
-/

namespace Zuckerserv

namespace DiscRecords

open Machine

/-! ## The records -/

/-- `message::disc_window` and `message::disc_msgs`. -/
structure Settings where
  discWindow : Int
  discMsgs : Int

/-- `disc_record`, and the time. -/
structure Discs where
  discRecord : BitVec 32 → Option (List Int)
  totalmillis : Int

/-- A time is within the window. -/
def Settings.within (w : Settings) (totalmillis t : Int) : Bool :=
  decide (totalmillis - t < w.discWindow)

/-- `toremove`: the index of the first time within the window; where there is none, it stays as it
was. -/
def toremove (w : Settings) (totalmillis : Int) (millis : List Int) : Nat :=
  (millis.findIdx? (w.within totalmillis)).getD 0

/-- What an update does to the record of an address. -/
def purge (w : Settings) (totalmillis : Int) (millis : List Int) : Option (List Int) :=
  if toremove w totalmillis millis ≠ 0 then
    let millis := millis.drop (toremove w totalmillis millis)
    if millis = [] then none else some millis
  else some millis

/-- The end of `serverupdate()`. -/
def serverupdate (w : Settings) (d : Discs) : Discs :=
  { d with discRecord := fun ip => (d.discRecord ip).bind (purge w d.totalmillis) }

/-- The part of `clientdisconnect` for a client that is no spy and leaves for a reason: the records,
and `senddiscmsg`. -/
def clientdisconnect (w : Settings) (d : Discs) (ip : BitVec 32) : Discs × Bool :=
  if 0 < w.discWindow ∧ 0 < w.discMsgs then
    let millis := (d.discRecord ip).getD [] ++ [d.totalmillis]
    ({ d with discRecord := Function.update d.discRecord ip (some millis) },
      decide ((millis.length : Int) ≤ w.discMsgs))
  else (d, true)

/-! ## Runs -/

/-- What happens: time passes, a client disconnects, the server is updated. -/
inductive Action
  | elapse (millis : Nat)
  | clientdisconnect (ip : BitVec 32)
  | serverupdate

/-- The records together with all disconnects so far, the first one first. -/
structure Watched where
  discs : Discs
  past : List (BitVec 32 × Int)

/-- At the start there is no record. -/
def Watched.init (totalmillis : Int) : Watched := ⟨⟨fun _ => none, totalmillis⟩, []⟩

/-- One step. -/
def step (w : Settings) (s : Watched) : Action → Watched
  | .elapse millis => { s with discs := { s.discs with totalmillis := s.discs.totalmillis + millis } }
  | .clientdisconnect ip =>
    ⟨(clientdisconnect w s.discs ip).1, s.past ++ [(ip, s.discs.totalmillis)]⟩
  | .serverupdate => { s with discs := serverupdate w s.discs }

/-- The times of the disconnects of an address. -/
def timesOf (past : List (BitVec 32 × Int)) (ip : BitVec 32) : List Int :=
  (past.filter (·.1 == ip)).map (·.2)

/-- Those within the window. -/
def recent (w : Settings) (s : Watched) (ip : BitVec 32) : List Int :=
  (timesOf s.past ip).filter (w.within s.discs.totalmillis)

/-- The records as they should be after an update: that of an address holds its times within the
window, and is there if there are any; and the message about a disconnect is suppressed if there
are too many of them, this disconnect included. -/
structure Kept (w : Settings) (s : Watched) : Prop where
  record : ∀ ip, s.discs.discRecord ip =
    if recent w s ip = [] then none else some (recent w s ip)
  suppressed : ∀ ip, (clientdisconnect w s.discs ip).2 = false ↔
    w.discMsgs < (recent w (step w s (.clientdisconnect ip)) ip).length

/-- An update finds, for every address that has had a disconnect, one within the window. -/
def SomeRecent (w : Settings) (s : Watched) : Action → Prop
  | .serverupdate => ∀ ip, timesOf s.past ip ≠ [] → recent w s ip ≠ []
  | _ => True

/-! ## Times in order -/

variable {w : Settings} {s : Watched} {now later : Int} {ts : List Int}

/-- A time that has left the window stays outside. -/
theorem Settings.within_mono {t t' : Int} (h : w.within now t = true) (hle : t ≤ t') :
    w.within now t' = true := by
  rw [Settings.within, decide_eq_true_eq] at h ⊢
  omega

theorem Settings.not_within_later {t : Int} (h : w.within now t = false) (hle : now ≤ later) :
    w.within later t = false := by
  rw [Settings.within, decide_eq_false_iff_not] at h ⊢
  omega

/-- In order, the times from the first one within the window are all those within it. -/
theorem drop_toremove (hsorted : ts.Pairwise (· ≤ ·)) (hsome : ts.filter (w.within now) ≠ []) :
    ts.drop (toremove w now ts) = ts.filter (w.within now) := by
  induction ts with
  | nil => rfl
  | cons t ts ih =>
    obtain ⟨hfirst, hrest⟩ := List.pairwise_cons.mp hsorted
    unfold toremove
    rw [List.findIdx?_cons]
    by_cases ht : w.within now t = true
    · have hall : ∀ t' ∈ t :: ts, w.within now t' = true := by
        intro t' ht'
        rcases List.mem_cons.mp ht' with rfl | hlater
        · exact ht
        · exact Settings.within_mono ht (hfirst t' hlater)
      rw [if_pos ht, List.filter_eq_self.mpr hall]
      rfl
    · rw [if_neg ht, List.filter_cons_of_neg ht] at *
      have hih := ih hrest hsome
      unfold toremove at hih
      obtain ⟨t', ht', hwithin⟩ := List.exists_mem_of_ne_nil _ hsome |>.imp fun _ h =>
        List.mem_filter.mp h
      obtain ⟨i, hi⟩ := Option.isSome_iff_exists.mp
        (List.findIdx?_isSome.trans (List.any_eq_true.mpr ⟨t', ht', hwithin⟩))
      rw [hi] at hih ⊢
      exact hih

/-- The times before the first one within the window have left it. -/
theorem not_within_of_mem_take {t : Int} (ht : t ∈ ts.take (toremove w now ts)) :
    w.within now t = false := by
  unfold toremove at ht
  cases hi : ts.findIdx? (w.within now) with
  | none =>
    rw [hi] at ht
    exact absurd ht (List.take_zero (l := ts) ▸ List.not_mem_nil)
  | some i =>
    rw [hi] at ht
    obtain ⟨hlt, -, hbefore⟩ := List.findIdx?_eq_some_iff_getElem.mp hi
    obtain ⟨j, hj, rfl⟩ := List.mem_take_iff_getElem.mp ht
    exact Bool.eq_false_iff.mpr (hbefore j (Nat.lt_of_lt_of_le hj (Nat.min_le_left ..)))

/-- What an update leaves of a record with a time within the window. -/
theorem purge_of_recent (hsorted : ts.Pairwise (· ≤ ·)) (hsome : ts.filter (w.within now) ≠ []) :
    purge w now ts = some (ts.filter (w.within now)) := by
  have hdrop := drop_toremove hsorted hsome
  unfold purge
  by_cases hzero : toremove w now ts = 0
  · rw [hzero] at hdrop
    rw [if_neg (not_not.mpr hzero)]
    exact congrArg some hdrop
  · rw [if_pos hzero, hdrop]
    exact if_neg hsome

/-- A record with no time within the window stays. -/
theorem purge_of_not_recent (hnone : ts.filter (w.within now) = []) :
    purge w now ts = some ts := by
  have hzero : toremove w now ts = 0 := by
    unfold toremove
    rw [List.findIdx?_eq_none_iff.mpr fun t ht => ?_]
    · rfl
    · exact Bool.eq_false_iff.mpr (List.filter_eq_nil_iff.mp hnone t ht)
  rw [purge, if_neg (not_not.mpr hzero)]

/-! ## What the records hold -/

/-- The record of an address holds its last times; those before them have left the window. Once
there is a record, it is never removed. -/
structure Held (w : Settings) (s : Watched) : Prop where
  sorted : ∀ ip, (timesOf s.past ip).Pairwise (· ≤ ·)
  past : ∀ ip, ∀ t ∈ timesOf s.past ip, t ≤ s.discs.totalmillis
  record : ∀ ip, ∃ gone, timesOf s.past ip = gone ++ (s.discs.discRecord ip).getD [] ∧
    ∀ t ∈ gone, w.within s.discs.totalmillis t = false
  absent : ∀ ip, s.discs.discRecord ip = none → timesOf s.past ip = []
  ne_nil : ∀ ip, s.discs.discRecord ip ≠ some []

theorem timesOf_append (past : List (BitVec 32 × Int)) (ip ip' : BitVec 32) (t : Int) :
    timesOf (past ++ [(ip, t)]) ip' =
      if ip' = ip then timesOf past ip' ++ [t] else timesOf past ip' := by
  unfold timesOf
  rw [List.filter_append, List.map_append]
  by_cases heq : ip' = ip
  · rw [if_pos heq, List.filter_cons_of_pos (p := fun d : BitVec 32 × Int => d.1 == ip')
      (beq_iff_eq.mpr heq.symm)]
    rfl
  · rw [if_neg heq, List.filter_cons_of_neg (p := fun d : BitVec 32 × Int => d.1 == ip')
      fun h => heq (beq_iff_eq.mp h).symm]
    exact List.append_nil _

/-- A disconnect puts its time at the end of the record. -/
theorem step_clientdisconnect (henabled : 0 < w.discWindow ∧ 0 < w.discMsgs) (ip : BitVec 32) :
    step w s (.clientdisconnect ip) =
      ⟨⟨Function.update s.discs.discRecord ip
        (some ((s.discs.discRecord ip).getD [] ++ [s.discs.totalmillis])), s.discs.totalmillis⟩,
        s.past ++ [(ip, s.discs.totalmillis)]⟩ := by
  have h : (clientdisconnect w s.discs ip).1 = ⟨Function.update s.discs.discRecord ip
      (some ((s.discs.discRecord ip).getD [] ++ [s.discs.totalmillis])), s.discs.totalmillis⟩ := by
    rw [clientdisconnect, if_pos henabled]
  exact congrArg (Watched.mk · _) h

/-- There is no record before the first disconnect. -/
theorem Held.init (w : Settings) (totalmillis : Int) : Held w (Watched.init totalmillis) where
  sorted _ := List.Pairwise.nil
  past _ _ h := absurd h List.not_mem_nil
  record _ := ⟨[], rfl, fun _ h => absurd h List.not_mem_nil⟩
  absent _ _ := rfl
  ne_nil _ := nofun

theorem Held.none_iff (h : Held w s) (ip : BitVec 32) :
    s.discs.discRecord ip = none ↔ timesOf s.past ip = [] := by
  refine ⟨h.absent ip, fun hnil => ?_⟩
  obtain ⟨gone, heq, -⟩ := h.record ip
  rw [hnil] at heq
  obtain ⟨-, hrecord⟩ := List.append_eq_nil_iff.mp heq.symm
  cases hold : s.discs.discRecord ip with
  | none => rfl
  | some millis =>
    rw [hold] at hrecord
    exact absurd (hold.trans (congrArg some hrecord)) (h.ne_nil ip)

/-- The times within the window are all in the record. -/
theorem Held.recent_eq (h : Held w s) (ip : BitVec 32) : recent w s ip =
    ((s.discs.discRecord ip).getD []).filter (w.within s.discs.totalmillis) := by
  obtain ⟨gone, heq, hgone⟩ := h.record ip
  have hnil : gone.filter (w.within s.discs.totalmillis) = [] :=
    List.filter_eq_nil_iff.mpr fun t ht => Bool.eq_false_iff.mp (hgone t ht)
  rw [recent, heq, List.filter_append, hnil, List.nil_append]

/-- The record of an address after an update. -/
theorem Held.serverupdate_record (h : Held w s) (ip : BitVec 32) :
    (serverupdate w s.discs).discRecord ip =
      if recent w s ip = [] then s.discs.discRecord ip else some (recent w s ip) := by
  have hrecent := h.recent_eq ip
  obtain ⟨gone, heq, -⟩ := h.record ip
  have hsorted := h.sorted ip
  rw [heq] at hsorted
  unfold serverupdate
  dsimp only
  cases hrecord : s.discs.discRecord ip with
  | none =>
    rw [hrecord] at hrecent
    rw [if_pos (show recent w s ip = [] from hrecent), Option.bind_none]
  | some millis =>
    rw [hrecord] at hrecent hsorted
    rw [Option.bind_some, hrecent]
    by_cases hnone : millis.filter (w.within s.discs.totalmillis) = []
    · exact (purge_of_not_recent hnone).trans (if_pos hnone).symm
    · have hmillis : millis.Pairwise (· ≤ ·) := (List.pairwise_append.mp hsorted).2.1
      exact (purge_of_recent hmillis hnone).trans (if_neg hnone).symm

theorem Held.elapse (h : Held w s) (millis : Nat) : Held w (step w s (.elapse millis)) where
  sorted := h.sorted
  past ip t ht :=
    Int.le_trans (h.past ip t ht) (Int.le_add_of_nonneg_right (Int.natCast_nonneg millis))
  record ip := by
    obtain ⟨gone, heq, hgone⟩ := h.record ip
    refine ⟨gone, heq, fun t ht => Settings.not_within_later (hgone t ht) ?_⟩
    exact Int.le_add_of_nonneg_right (Int.natCast_nonneg millis)
  absent := h.absent
  ne_nil := h.ne_nil

theorem Held.clientdisconnect (h : Held w s) (henabled : 0 < w.discWindow ∧ 0 < w.discMsgs)
    (ip : BitVec 32) : Held w (step w s (.clientdisconnect ip)) := by
  rw [step_clientdisconnect henabled]
  constructor <;> dsimp only
  · intro ip'
    rw [timesOf_append]
    split
    · refine List.pairwise_append.mpr ⟨h.sorted ip', List.pairwise_singleton _ _, ?_⟩
      intro t ht t' ht'
      rw [List.mem_singleton.mp ht']
      exact h.past ip' t ht
    · exact h.sorted ip'
  · intro ip' t ht
    rw [timesOf_append] at ht
    split at ht
    · rcases List.mem_append.mp ht with hold | hnew
      · exact h.past ip' t hold
      · exact Int.le_of_eq (List.mem_singleton.mp hnew)
    · exact h.past ip' t ht
  · intro ip'
    obtain ⟨gone, heq, hgone⟩ := h.record ip'
    refine ⟨gone, ?_, hgone⟩
    rw [timesOf_append]
    by_cases hip : ip' = ip
    · subst hip
      rw [if_pos rfl, Function.update_self, heq, List.append_assoc]
      rfl
    · rw [if_neg hip, Function.update_of_ne hip]
      exact heq
  · intro ip' hnone
    by_cases hip : ip' = ip
    · subst hip
      rw [Function.update_self] at hnone
      cases hnone
    · rw [Function.update_of_ne hip] at hnone
      rw [timesOf_append, if_neg hip]
      exact h.absent ip' hnone
  · intro ip' hnil
    by_cases hip : ip' = ip
    · subst hip
      rw [Function.update_self] at hnil
      exact List.append_ne_nil_of_right_ne_nil _ (List.cons_ne_nil _ _) (Option.some.inj hnil)
    · rw [Function.update_of_ne hip] at hnil
      exact h.ne_nil ip' hnil

theorem Held.serverupdate (h : Held w s) : Held w (step w s .serverupdate) where
  sorted := h.sorted
  past := h.past
  record ip := by
    change ∃ gone, timesOf s.past ip =
      gone ++ ((DiscRecords.serverupdate w s.discs).discRecord ip).getD [] ∧ _
    rw [h.serverupdate_record ip]
    by_cases hnone : recent w s ip = []
    · rw [if_pos hnone]
      exact h.record ip
    · rw [if_neg hnone]
      refine ⟨(timesOf s.past ip).take (toremove w s.discs.totalmillis (timesOf s.past ip)),
        ?_, fun t ht => ?_⟩
      · have hdrop := drop_toremove (h.sorted ip) hnone
        calc timesOf s.past ip = (timesOf s.past ip).take _ ++ (timesOf s.past ip).drop _ :=
              (List.take_append_drop _ _).symm
          _ = _ := congrArg (_ ++ ·) hdrop
      · exact not_within_of_mem_take ht
  absent ip hnone := by
    change (DiscRecords.serverupdate w s.discs).discRecord ip = _ at hnone
    rw [h.serverupdate_record ip] at hnone
    split at hnone
    · exact h.absent ip hnone
    · cases hnone
  ne_nil ip hnil := by
    change (DiscRecords.serverupdate w s.discs).discRecord ip = _ at hnil
    rw [h.serverupdate_record ip] at hnil
    split at hnil
    · exact h.ne_nil ip hnil
    · rename_i hsome
      exact hsome (Option.some.inj hnil)

/-- The records hold the last times in any run. -/
theorem held_run (henabled : 0 < w.discWindow ∧ 0 < w.discMsgs) (totalmillis : Int)
    (as : List Action) : Held w (Machine.run (step w) (Watched.init totalmillis) as) := by
  refine Machine.run_inv (fun s a h => ?_) (Held.init w totalmillis) as
  cases a with
  | elapse millis => exact h.elapse millis
  | clientdisconnect ip => exact h.clientdisconnect henabled ip
  | serverupdate => exact h.serverupdate

/-! ## After every update -/

/-- A disconnect is within the window at its own time. -/
theorem recent_clientdisconnect (henabled : 0 < w.discWindow ∧ 0 < w.discMsgs) (ip : BitVec 32) :
    recent w (step w s (.clientdisconnect ip)) ip = recent w s ip ++ [s.discs.totalmillis] := by
  have hwithin : w.within s.discs.totalmillis s.discs.totalmillis = true := by
    rw [Settings.within, Int.sub_self]
    exact decide_eq_true henabled.1
  rw [step_clientdisconnect henabled, recent, timesOf_append, if_pos rfl, List.filter_append,
    List.filter_cons_of_pos hwithin]
  rfl

/-- Where the records are right, the right messages are suppressed. -/
theorem suppressed_of_record (henabled : 0 < w.discWindow ∧ 0 < w.discMsgs)
    {ip : BitVec 32} (hrecord : (s.discs.discRecord ip).getD [] = recent w s ip) :
    (clientdisconnect w s.discs ip).2 = false ↔
      w.discMsgs < (recent w (step w s (.clientdisconnect ip)) ip).length := by
  unfold clientdisconnect
  rw [recent_clientdisconnect henabled, if_pos henabled, hrecord, decide_eq_false_iff_not]
  exact Int.not_le

/-- After an update the records are right if and only if each address that has had a disconnect has
had one within the window. -/
theorem kept_serverupdate_iff (henabled : 0 < w.discWindow ∧ 0 < w.discMsgs) (h : Held w s) :
    Kept w (step w s .serverupdate) ↔ SomeRecent w s .serverupdate := by
  constructor
  · intro hkept ip hpast hnone
    have hrecord := (h.serverupdate_record ip).symm.trans (hkept.record ip)
    rw [if_pos hnone] at hrecord
    exact hpast (h.absent ip (hrecord.trans (if_pos hnone)))
  · intro hrecent
    have hrecord (ip : BitVec 32) : (serverupdate w s.discs).discRecord ip =
        if recent w s ip = [] then none else some (recent w s ip) := by
      rw [h.serverupdate_record ip]
      refine if_ctx_congr Iff.rfl (fun hnone => ?_) fun _ => rfl
      exact (h.none_iff ip).mpr (not_not.mp fun hpast => hrecent ip hpast hnone)
    refine ⟨hrecord, fun ip => suppressed_of_record henabled ?_⟩
    change ((serverupdate w s.discs).discRecord ip).getD [] = recent w s ip
    rw [hrecord ip]
    split
    · rename_i hnone
      exact hnone.symm
    · rfl

/-- With the feature enabled, the records are right after every update of a run if and only if
every update finds a disconnect within the window for each address that has had one. -/
theorem kept_iff (w : Settings) (hwindow : 0 < w.discWindow) (hmsgs : 0 < w.discMsgs)
    (totalmillis : Int) (as : List Action) :
    (∀ bs cs, as = bs ++ .serverupdate :: cs →
      Kept w (Machine.run (step w) (Watched.init totalmillis) (bs ++ [.serverupdate]))) ↔
      Along (SomeRecent w) (step w) (Watched.init totalmillis) as := by
  have hiff (bs : List Action) :
      Kept w (Machine.run (step w) (Watched.init totalmillis) (bs ++ [.serverupdate])) ↔
        SomeRecent w (Machine.run (step w) (Watched.init totalmillis) bs) .serverupdate := by
    rw [Machine.run_snoc]
    exact kept_serverupdate_iff ⟨hwindow, hmsgs⟩ (held_run ⟨hwindow, hmsgs⟩ totalmillis bs)
  rw [Machine.along_iff]
  constructor
  · intro hkept bs a cs has
    cases a with
    | serverupdate => exact (hiff bs).mp (hkept bs cs has)
    | elapse millis => trivial
    | clientdisconnect ip => trivial
  · intro hrecent bs cs has
    exact (hiff bs).mpr (hrecent bs .serverupdate cs has)

/-- A single disconnect is still on record when it has left the window. -/
theorem old_record_stays : ¬ Kept ⟨1000, 2⟩ (Machine.run (step ⟨1000, 2⟩) (Watched.init 0)
    [.clientdisconnect 1, .elapse 2000, .serverupdate]) := by
  intro hkept
  have hrecord := hkept.record 1
  revert hrecord
  decide

/-- A disconnect, and an update a second later. -/
theorem kept_iff_second : Kept ⟨5000, 2⟩ (Machine.run (step ⟨5000, 2⟩) (Watched.init 0)
    [.clientdisconnect 1, .elapse 1000, .serverupdate]) := by
  refine (kept_iff ⟨5000, 2⟩ (by decide) (by decide) 0
    [.clientdisconnect 1, .elapse 1000, .serverupdate]).mpr ⟨trivial, trivial, ?_, trivial⟩
    [.clientdisconnect 1, .elapse 1000] [] rfl
  intro ip hpast
  change timesOf [(1, 0)] ip ≠ [] at hpast
  change (timesOf [(1, 0)] ip).filter _ ≠ []
  by_cases hip : ip = 1
  · subst hip
    decide
  · refine absurd ?_ hpast
    exact (timesOf_append [] 1 ip 0).trans (if_neg hip)

end DiscRecords

end Zuckerserv
