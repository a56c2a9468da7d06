import Zuckerserv.Lib.Machine
import Zuckerserv.Lib.Table
import Zuckerserv.Script.Deferred

/-!
# The law of deferred values

What a deferred is settled with is what its handler has returned, or what the deferred that its
handler has returned has been settled with.

* `Links` — what the handlers have returned, and the deferreds that wait for others.
* `Lawful` — the handlers are called once, in their order, with the value of the deferred; and what
  they return settles the deferreds they belong to.
* `lawful_run` — in a run in which nothing is attached to a deferred whose loop is going on.
* `called_twice` — otherwise a handler can be called twice.
-/

namespace Zuckerserv

namespace Deferreds

variable {α : Type}

/-- What has been returned has been settled, or waits for the child that is bound to it. -/
structure Links (s : State α) : Prop where
  returned_called : ∀ c, s.returned c ≠ none → ∃ d, s.parent c = some d ∧ c ∈ s.called d
  waiting : ∀ f ∈ s.stack, ∀ h t, f.task = some (h, t) → t ≠ .dropping → s.returned h = none
  plain : ∀ c w, s.returned c = some (.plain w) → ∃ d k v, s.parent c = some d ∧
    s.finished d = some (k, v) ∧ s.finished c = some (k, w)
  linked : ∀ c r, s.returned c = some (.deferred r) → ∃ m ∈ s.attached r, s.target m = some c
  bound : ∀ m c, s.target m = some c →
    ∃ r, m ∈ s.attached r ∧ s.returned c = some (.deferred r)
  inj : ∀ m m' c, s.target m = some c → s.target m' = some c → m = m'
  settled : ∀ m c r, s.target m = some c → m ∈ s.attached r →
    s.finished c = if m ∈ s.called r then s.finished r else none
  chained : ∀ c, s.parent c ≠ none → s.finished c ≠ none → s.returned c ≠ none

theorem links_init : Links (State.init : State α) where
  returned_called _ h := absurd rfl h
  waiting _ hf := absurd hf List.not_mem_nil
  plain _ _ h := absurd h nofun
  linked _ _ h := absurd h nofun
  bound _ _ h := absurd h nofun
  inj _ _ _ h := absurd h nofun
  settled _ _ _ h := absurd h nofun
  chained _ h := absurd rfl h

/-! ## The steps -/

section Steps

variable {s : State α} {d n h : Nat} {kind : Kind} {value : α} {rest : List Frame} {t : Task}

theorem mem_stack_flush {f : Frame} (hf : f ∈ (flush s d).stack) : f = ⟨d, none⟩ ∨ f ∈ s.stack := by
  rw [flush] at hf
  split at hf
  · exact .inr hf
  · exact List.mem_cons.mp hf

/-- A loop that starts changes nothing else. -/
theorem Links.flush (hl : Links s) (d : Nat) : Links (flush s d) := by
  have hwaiting (f : Frame) (hf : f ∈ (Deferreds.flush s d).stack) (i : Nat) (u : Task)
      (hu : f.task = some (i, u)) (hne : u ≠ .dropping) : s.returned i = none := by
    rcases mem_stack_flush hf with rfl | hf
    · exact absurd hu nofun
    · exact hl.waiting f hf i u hu hne
  unfold Deferreds.flush at hwaiting ⊢
  split
  · exact hl
  · next hd =>
    rw [if_neg hd] at hwaiting
    exact ⟨hl.returned_called, hwaiting, hl.plain, hl.linked, hl.bound, hl.inj, hl.settled,
      hl.chained⟩

/-- Frames are removed, or their tasks are done. -/
theorem Links.restack (hl : Links s) {stack : List Frame} {queue : Nat → List Nat}
    (hstack : ∀ f ∈ stack, ∀ i u, f.task = some (i, u) → u ≠ .dropping → f ∈ s.stack) :
    Links { s with queue := queue, stack := stack } :=
  ⟨hl.returned_called, fun f hf i u hu hne => hl.waiting f (hstack f hf i u hu hne) i u hu hne,
    hl.plain, hl.linked, hl.bound, hl.inj, hl.settled, hl.chained⟩

theorem Links.new (hl : Links s) : Links { s with count := s.count + 1 } :=
  ⟨hl.returned_called, hl.waiting, hl.plain, hl.linked, hl.bound, hl.inj, hl.settled, hl.chained⟩

/-- A child that has been called has been attached. -/
theorem Queues.mem_attached (hs : Queues s) {c : Nat} (hc : c ∈ s.called d) : c ∈ s.attached d := by
  rw [hs.order d]
  exact List.mem_append_left _ hc

/-- A child belongs to one deferred. -/
theorem Queues.eq_of_attached (hs : Queues s) {c d' : Nat} (hc : c ∈ s.attached d)
    (hc' : c ∈ s.attached d') : d = d' :=
  Option.some.inj ((hs.child d c hc).1.symm.trans (hs.child d' c hc').1)

/-- A deferred that is not finished has called nothing. -/
theorem Queues.not_mem_called (hs : Queues s) (hd : s.finished d = none) (c : Nat) :
    c ∉ s.called d := by
  rw [State.called, hs.unfired d hd]
  exact List.not_mem_nil

/-- The number of the next deferred is new. -/
theorem Queues.ne_count (hs : Queues s) {c : Nat} (hc : c ∈ s.attached d) : c ≠ s.count :=
  Nat.ne_of_lt (hs.child d c hc).2

theorem Links.returned_count (hl : Links s) (hs : Queues s) : s.returned s.count = none := by
  by_contra hne
  obtain ⟨d, hd, -⟩ := hl.returned_called _ hne
  exact absurd (hd.symm.trans (hs.known _ (Nat.le_refl _)).2.2) nofun

/-- A child is made, and is bound to nothing. -/
theorem Links.child (hl : Links s) (hs : Queues s) (d : Nat) (queue : Nat → List Nat) :
    Links { s with
      count := s.count + 1
      queue := queue
      target := Function.update s.target s.count none
      parent := Function.update s.parent s.count (some d)
      attached := Function.update s.attached d (s.attached d ++ [s.count]) } := by
  have htarget {m c : Nat} (hm : Function.update s.target s.count none m = some c) :
      m ≠ s.count ∧ s.target m = some c := Table.of_update_none hm
  have hparent {c : Nat} (hc : s.returned c ≠ none) : c ≠ s.count := fun heq =>
    hc (heq ▸ hl.returned_count hs)
  have hattached {m r : Nat} (hm : m ∈ s.attached r) :
      m ∈ Function.update s.attached d (s.attached d ++ [s.count]) r := by
    by_cases heq : r = d
    · rw [heq, Function.update_self]
      exact List.mem_append_left _ (heq ▸ hm)
    · rwa [Function.update_of_ne heq]
  refine ⟨?_, hl.waiting, ?_, ?_, ?_, ?_, ?_, ?_⟩
  · intro c hc
    dsimp only
    rw [Function.update_of_ne (hparent hc)]
    exact hl.returned_called c hc
  · intro c w hw
    dsimp only at hw ⊢
    rw [Function.update_of_ne (hparent (hw ▸ nofun))]
    exact hl.plain c w hw
  · intro c r hr
    obtain ⟨m, hm, hc⟩ := hl.linked c r hr
    refine ⟨m, hattached hm, ?_⟩
    dsimp only
    rw [Function.update_of_ne (hs.ne_count hm)]
    exact hc
  · intro m c hm
    obtain ⟨r, hr, hc⟩ := hl.bound m c (htarget hm).2
    exact ⟨r, hattached hr, hc⟩
  · exact fun m m' c hm hm' => hl.inj m m' c (htarget hm).2 (htarget hm').2
  · intro m c r hm hr
    obtain ⟨hne, hm⟩ := htarget hm
    refine hl.settled m c r hm ?_
    dsimp only at hr
    by_cases heq : r = d
    · rw [heq, Function.update_self] at hr
      rcases List.mem_append.mp hr with hr | hr
      · exact heq ▸ hr
      · exact absurd (List.mem_singleton.mp hr) hne
    · rwa [Function.update_of_ne heq] at hr
  · intro c hc hfinished
    dsimp only at hc hfinished
    by_cases heq : c = s.count
    · rw [heq] at hfinished
      exact absurd (hs.known _ (Nat.le_refl _)).1 hfinished
    · rw [Function.update_of_ne heq] at hc
      exact hl.chained c hc hfinished

/-- The program attaches a child. -/
theorem Links.attach (hl : Links s) (hs : Queues s) (d : Nat) : Links (attach s d none) :=
  (hl.child hs d _).flush d

/-- The handler of `h` has returned `r`, and a child of `r` is bound to `h`. -/
theorem Links.bind (hl : Links s) {m r : Nat} (hcalled : ∃ d, s.parent h = some d ∧ h ∈ s.called d)
    (hreturned : s.returned h = none) (hfinished : s.finished h = none) (hm : m ∈ s.attached r)
    (hwait : ∀ r', m ∉ s.called r') (htarget : s.target m = none)
    (hstack : ∀ f ∈ s.stack, ∀ i u, f.task = some (i, u) → u ≠ .dropping → i ≠ h) :
    Links { s with
      target := Function.update s.target m (some h)
      returned := Function.update s.returned h (some (.deferred r)) } := by
  have hfree (m' : Nat) : s.target m' ≠ some h := fun hm' => by
    obtain ⟨r', -, hr'⟩ := hl.bound m' h hm'
    exact absurd (hreturned.symm.trans hr') nofun
  refine ⟨?_, ?_, ?_, ?_, ?_, ?_, ?_, ?_⟩
  · intro c hc
    dsimp only at hc ⊢
    by_cases heq : c = h
    · exact heq ▸ hcalled
    · rw [Function.update_of_ne heq] at hc
      exact hl.returned_called c hc
  · intro f hf i u hu hne
    dsimp only
    rw [Function.update_of_ne (hstack f hf i u hu hne)]
    exact hl.waiting f hf i u hu hne
  · intro c w hc
    rcases Table.of_update_some hc with ⟨-, hw⟩ | ⟨-, hc⟩
    · cases hw
    · exact hl.plain c w hc
  · intro c r' hc
    rcases Table.of_update_some hc with ⟨rfl, hr'⟩ | ⟨-, hc⟩
    · cases hr'
      exact ⟨m, hm, Function.update_self ..⟩
    · obtain ⟨m', hm', hc'⟩ := hl.linked c r' hc
      have hne : m' ≠ m := by
        intro heq'
        rw [heq', htarget] at hc'
        exact absurd hc' nofun
      exact ⟨m', hm', (Function.update_of_ne hne ..).trans hc'⟩
  · intro m' c hc
    rcases Table.of_update_some hc with ⟨rfl, rfl⟩ | ⟨-, hc⟩
    · exact ⟨r, hm, Function.update_self ..⟩
    · obtain ⟨r', hr', hc'⟩ := hl.bound m' c hc
      have hne : c ≠ h := fun heq' => hfree m' (heq' ▸ hc)
      exact ⟨r', hr', (Function.update_of_ne hne ..).trans hc'⟩
  · intro m' m'' c hc hc'
    rcases Table.of_update_some hc with ⟨heq, rfl⟩ | ⟨-, hold⟩
    · rcases Table.of_update_some hc' with ⟨heq', -⟩ | ⟨-, hold'⟩
      · exact heq.trans heq'.symm
      · exact absurd hold' (hfree m'')
    · rcases Table.of_update_some hc' with ⟨-, rfl⟩ | ⟨-, hold'⟩
      · exact absurd hold (hfree m')
      · exact hl.inj m' m'' c hold hold'
  · intro m' c r' hc hr'
    rcases Table.of_update_some hc with ⟨rfl, rfl⟩ | ⟨-, hc⟩
    · exact hfinished.trans (if_neg (hwait r')).symm
    · exact hl.settled m' c r' hc hr'
  · intro c hc hfinished'
    dsimp only
    by_cases heq : c = h
    · rw [heq, Function.update_self]
      exact nofun
    · rw [Function.update_of_ne heq]
      exact hl.chained c hc hfinished'

/-- A deferred is settled that nothing is bound to: by the program, or by what its handler has
returned. -/
theorem Links.finish (hl : Links s) (hs : Queues s) (hnone : s.finished n = none)
    (hold : s.returned n = none) {returned : Nat → Option (Result α)}
    (hsame : ∀ c, c ≠ n → returned c = s.returned c)
    (hnew : returned n = none ∧ s.parent n = none ∨ returned n = some (.plain value) ∧
      ∃ d v, s.parent n = some d ∧ n ∈ s.called d ∧ s.finished d = some (kind, v))
    (hstack : ∀ f ∈ s.stack, ∀ i u, f.task = some (i, u) → u ≠ .dropping → i ≠ n) :
    Links { s with
      finished := Function.update s.finished n (some (kind, value)), returned := returned } := by
  have hfree (m : Nat) : s.target m ≠ some n := fun hm => by
    obtain ⟨r, -, hr⟩ := hl.bound m n hm
    exact absurd (hold.symm.trans hr) nofun
  have hkeep {d : Nat} {x : Kind × α} (hd : s.finished d = some x) :
      Function.update s.finished n (some (kind, value)) d = some x := by
    have hne : d ≠ n := by
      intro heq
      rw [heq, hnone] at hd
      exact absurd hd nofun
    rw [Function.update_of_ne hne]
    exact hd
  have hdeferred {c r : Nat} (hc : returned c = some (.deferred r)) :
      s.returned c = some (.deferred r) := by
    by_cases heq : c = n
    · rw [heq] at hc
      rcases hnew with ⟨hn, -⟩ | ⟨hn, -⟩ <;> exact absurd (hn.symm.trans hc) nofun
    · rwa [hsame c heq] at hc
  refine ⟨?_, ?_, ?_, ?_, ?_, hl.inj, ?_, ?_⟩
  · intro c hc
    by_cases heq : c = n
    · rw [heq] at hc ⊢
      rcases hnew with ⟨hn, -⟩ | ⟨-, d, v, hd, hc', -⟩
      · exact absurd hn hc
      · exact ⟨d, hd, hc'⟩
    · dsimp only at hc
      rw [hsame c heq] at hc
      exact hl.returned_called c hc
  · intro f hf i u hu hne
    dsimp only
    rw [hsame i (hstack f hf i u hu hne)]
    exact hl.waiting f hf i u hu hne
  · intro c w hc
    dsimp only at hc ⊢
    by_cases heq : c = n
    · rw [heq] at hc ⊢
      rcases hnew with ⟨hn, -⟩ | ⟨hn, d, v, hd, -, hdone⟩
      · exact absurd (hn.symm.trans hc) nofun
      · obtain rfl : value = w := by simpa using hn.symm.trans hc
        exact ⟨d, kind, v, hd, hkeep hdone, Function.update_self ..⟩
    · rw [hsame c heq] at hc
      obtain ⟨d, k, v, hd, hdone, hc'⟩ := hl.plain c w hc
      exact ⟨d, k, v, hd, hkeep hdone, hkeep hc'⟩
  · exact fun c r hc => hl.linked c r (hdeferred hc)
  · intro m c hc
    obtain ⟨r, hr, hc'⟩ := hl.bound m c hc
    refine ⟨r, hr, ?_⟩
    dsimp only
    rw [hsame c fun heq => hfree m (heq ▸ hc)]
    exact hc'
  · intro m c r hc hr
    have hne : c ≠ n := fun heq => hfree m (heq ▸ hc)
    dsimp only
    rw [Function.update_of_ne hne, hl.settled m c r hc hr]
    by_cases hm : m ∈ s.called r
    · have hne : r ≠ n := fun heq => hs.not_mem_called hnone m (heq ▸ hm)
      rw [if_pos hm, Function.update_of_ne hne]
      exact (if_pos hm).symm
    · rw [if_neg hm]
      exact (if_neg hm).symm
  · intro c hc hfinished
    dsimp only at hfinished ⊢
    by_cases heq : c = n
    · rw [heq] at hc ⊢
      rcases hnew with ⟨-, hn⟩ | ⟨hn, -⟩
      · exact absurd hn hc
      · rw [hn]
        exact nofun
    · rw [Function.update_of_ne heq] at hfinished
      rw [hsame c heq]
      exact hl.chained c hc hfinished

theorem mem_called_fire {c d' : Nat} :
    c ∈ (fire s d h kind value t rest).called d' ↔ c ∈ s.called d' ∨ d' = d ∧ c = h := by
  rw [State.called, State.called, fire]
  dsimp only
  by_cases heq : d' = d
  · rw [heq, Function.update_self, List.map_append, List.mem_append]
    simp
  · rw [Function.update_of_ne heq]
    simp [heq]

/-- The head has been attached, and has not been called. -/
theorem Queues.head (hs : Queues s) (hstack : s.stack = ⟨d, none⟩ :: rest) {q : List Nat}
    (hqueue : s.queue d = h :: q) : h ∈ s.attached d ∧ ∀ d', h ∉ s.called d' := by
  have horder := hs.order d
  rw [hstack, taskOf_cons_self, pending, if_pos rfl, hqueue] at horder
  have hmem : h ∈ s.attached d := horder ▸ List.mem_append_right _ List.mem_cons_self
  refine ⟨hmem, fun d' hd' => ?_⟩
  obtain rfl : d' = d := hs.eq_of_attached (hs.mem_attached hd') hmem
  have hdistinct := hs.distinct d'
  rw [horder] at hdistinct
  exact (List.nodup_append.mp hdistinct).2.2 h hd' h List.mem_cons_self rfl

/-- A handler is called, and if it is bound to a deferred, that one is settled. -/
theorem Links.fire (hl : Links s) (hs : Queues s) (hstack : s.stack = ⟨d, none⟩ :: rest)
    (hfinished : s.finished d = some (kind, value)) {q : List Nat} (hqueue : s.queue d = h :: q)
    {finished : Nat → Option (Kind × α)}
    (hbound : ∀ c, s.target h = some c → finished c = some (kind, value))
    (hother : ∀ c, s.target h ≠ some c → finished c = s.finished c) :
    Links { fire s d h kind value t rest with finished := finished } := by
  obtain ⟨hattached, hcalled⟩ := hs.head hstack hqueue
  have hkeep {c : Nat} {x : Kind × α} (hc : s.finished c = some x) : finished c = some x := by
    refine (hother c fun htarget => ?_).trans hc
    have hnone := hl.settled h c d htarget hattached
    rw [if_neg (hcalled d), hc] at hnone
    exact absurd hnone nofun
  have hmem {c d' : Nat} :
      c ∈ (Deferreds.fire s d h kind value t rest).called d' ↔ c ∈ s.called d' ∨ d' = d ∧ c = h :=
    mem_called_fire
  refine ⟨?_, ?_, ?_, hl.linked, hl.bound, hl.inj, ?_, ?_⟩
  · intro c hc
    obtain ⟨d', hd', hc'⟩ := hl.returned_called c hc
    exact ⟨d', hd', hmem.mpr (.inl hc')⟩
  · intro f hf i u hu hne
    rcases List.mem_cons.mp hf with rfl | hf
    · cases hu
      by_contra hreturned
      obtain ⟨d', -, hd'⟩ := hl.returned_called h hreturned
      exact hcalled d' hd'
    · exact hl.waiting f (hstack ▸ List.mem_cons_of_mem _ hf) i u hu hne
  · intro c w hc
    obtain ⟨d', k, v, hd', hdone, hc'⟩ := hl.plain c w hc
    exact ⟨d', k, v, hd', hkeep hdone, hkeep hc'⟩
  · intro m c r hm hr
    by_cases heq : m = h
    · rw [heq] at hm hr ⊢
      obtain rfl : r = d := hs.eq_of_attached hr hattached
      exact (hbound c hm).trans
        ((if_pos (hmem.mpr (.inr ⟨rfl, rfl⟩))).trans (hkeep hfinished)).symm
    · refine ((hother c fun hc => heq (hl.inj m h c hm hc)).trans (hl.settled m c r hm hr)).trans ?_
      by_cases hcall : m ∈ s.called r
      · obtain ⟨x, hx⟩ : ∃ x, s.finished r = some x :=
          Option.ne_none_iff_exists'.mp fun hnone => hs.not_mem_called hnone m hcall
        rw [if_pos hcall, hx]
        exact ((if_pos (hmem.mpr (.inl hcall))).trans (hkeep hx)).symm
      · rw [if_neg hcall]
        refine (if_neg fun hcall' => ?_).symm
        rcases hmem.mp hcall' with hcall' | ⟨-, hcall'⟩
        · exact hcall hcall'
        · exact heq hcall'
  · intro c hc hc'
    by_cases htarget : s.target h = some c
    · obtain ⟨r, -, hr⟩ := hl.bound h c htarget
      exact fun hnone => absurd (hr.symm.trans hnone) nofun
    · refine hl.chained c hc ?_
      rw [← hother c htarget]
      exact hc'

theorem settle_of_none (hn : s.finished n = none) :
    settle s n kind value =
      flush { s with finished := Function.update s.finished n (some (kind, value)) } n :=
  if_pos hn

/-- A handler returns. -/
theorem yield_keeps (hs : Flow s) (hl : Links s) (hstack : s.stack = ⟨d, some (h, t)⟩ :: rest)
    (ht : t ≠ .dropping) {result : Result α} (hknown : result.Known s.count)
    (hcalm : ∀ r, result = .deferred r → r ∉ s.stack.map Frame.deferred) :
    Flow (yield s d h result rest) ∧ Links (yield s d h result rest) := by
  have htop : ⟨d, some (h, t)⟩ ∈ s.stack := hstack ▸ List.mem_cons_self
  have hreturned : s.returned h = none := hl.waiting _ htop h t rfl ht
  obtain ⟨-, hcall⟩ := hs.busy _ htop h t rfl
  obtain ⟨hparent, hcount⟩ := hs.child d h (hs.mem_attached hcall)
  have hnone : s.finished h = none := by
    by_contra hne
    exact hl.chained h (hparent ▸ nofun) hne hreturned
  obtain ⟨⟨kind, v⟩, hdone⟩ : ∃ x, s.finished d = some x :=
    Option.ne_none_iff_exists'.mp (hs.done _ htop)
  have hflow := hs.dropping hstack (Function.update s.returned h (some result))
  have hrest : ∀ f ∈ (⟨d, some (h, .dropping)⟩ :: rest : List Frame), ∀ i u,
      f.task = some (i, u) → u ≠ .dropping → f ∈ s.stack ∧ i ≠ h := by
    intro f hf i u hu hne
    rcases List.mem_cons.mp hf with rfl | hf
    · cases hu
      exact absurd rfl hne
    · have hmem : f ∈ s.stack := hstack ▸ List.mem_cons_of_mem _ hf
      refine ⟨hmem, fun heq => hs.ne_of_mem_rest hstack f hf ?_⟩
      have hi := hs.mem_attached (hs.busy f hmem i u hu).2
      rw [heq] at hi
      exact hs.eq_of_attached hi (hs.mem_attached hcall)
  have hlinks : Links { s with stack := ⟨d, some (h, .dropping)⟩ :: rest } :=
    hl.restack fun f hf i u hu hne => (hrest f hf i u hu hne).1
  have hqueues := (hs.dropping hstack s.returned).toQueues
  cases result with
  | plain value =>
    unfold yield
    dsimp only
    rw [hdone]
    refine ⟨hflow.settle hcount hnone kind value, ?_⟩
    have hfinish : Links { s with
        stack := ⟨d, some (h, .dropping)⟩ :: rest
        finished := Function.update s.finished h (some (kind, value))
        returned := Function.update s.returned h (some (.plain value)) } := by
      refine hlinks.finish hqueues hnone hreturned (fun c hc => Function.update_of_ne hc ..) ?_ ?_
      · exact .inr ⟨Function.update_self .., d, v, hparent, hcall, hdone⟩
      · exact fun f hf i u hu hne => (hrest f hf i u hu hne).2
    dsimp only
    rw [settle_of_none]
    · exact hfinish.flush h
    · exact hnone
  | deferred r =>
    have hmem : r ∉ (⟨d, some (h, .dropping)⟩ :: rest : List Frame).map Frame.deferred := by
      have hr := hcalm r rfl
      rw [hstack] at hr
      exact hr
    refine ⟨hflow.attach hknown hmem (some h), ?_⟩
    have hne : h ≠ s.count := Nat.ne_of_lt hcount
    have hbind := (hlinks.child hqueues r
      (Function.update s.queue r (s.queue r ++ [s.count]))).bind (h := h) (m := s.count) (r := r)
      ⟨d, (Function.update_of_ne hne ..).trans hparent, hcall⟩ hreturned hnone
      (by
        dsimp only
        rw [Function.update_self]
        exact List.mem_append_right _ List.mem_cons_self)
      (fun r' hr' => hs.ne_count (hs.mem_attached hr') rfl) (Function.update_self ..)
      (fun f hf i u hu hne => (hrest f hf i u hu hne).2)
    dsimp only at hbind
    rw [Function.update_idem] at hbind
    exact hbind.flush r

/-- The loop on the top goes on. -/
theorem tick_keeps (unit : α) (hs : Flow s) (hl : Links s) :
    Flow (tick unit s) ∧ Links (tick unit s) := by
  unfold tick
  split
  · exact ⟨hs, hl⟩
  · next d rest hstack =>
    split
    · next kind value h q hfinished hqueue =>
      obtain ⟨hattached, hcalled⟩ := hs.head hstack hqueue
      split
      · next htarget =>
        refine ⟨hs.fire hstack hfinished hqueue .running, ?_⟩
        exact hl.fire hs.toQueues hstack hfinished hqueue
          (fun c hc => absurd (htarget.symm.trans hc) nofun) fun _ _ => rfl
      · next n htarget =>
        have hnone : s.finished n = none :=
          (hl.settled h n d htarget hattached).trans (if_neg (hcalled d))
        have hcount : n < s.count := by
          obtain ⟨r, -, hr⟩ := hl.bound h n htarget
          obtain ⟨d', hd', -⟩ := hl.returned_called n (hr ▸ nofun)
          refine Nat.lt_of_not_le fun hle => ?_
          exact absurd ((hs.known n hle).2.2.symm.trans hd') nofun
        refine ⟨(hs.fire hstack hfinished hqueue .settling).settle hcount hnone kind value, ?_⟩
        have hfire : Links { fire s d h kind value .settling rest with
            finished := Function.update s.finished n (some (kind, value)) } := by
          refine hl.fire hs.toQueues hstack hfinished hqueue (fun c hc => ?_) fun c hc => ?_
          · rw [← Option.some.inj (htarget.symm.trans hc), Function.update_self]
          · have hne : c ≠ n := fun heq => hc (heq ▸ htarget)
            exact Function.update_of_ne hne ..
        rw [settle_of_none]
        · exact hfire.flush n
        · exact hnone
    · next hcases =>
      have hqueue : s.queue d = [] := by
        obtain ⟨⟨kind, value⟩, hdone⟩ : ∃ x, s.finished d = some x :=
          Option.ne_none_iff_exists'.mp (hs.done ⟨d, none⟩ (hstack ▸ List.mem_cons_self))
        cases hqueue : s.queue d with
        | nil => rfl
        | cons h q => exact absurd hqueue (hcases kind value h q hdone)
      refine ⟨hs.pop hstack hqueue, hl.restack fun f hf i u _ _ => ?_⟩
      exact hstack ▸ List.mem_cons_of_mem _ hf
  · exact ⟨hs, hl⟩
  · next d h rest hstack =>
    exact yield_keeps hs hl hstack nofun trivial fun r hr => absurd hr nofun
  · next d h rest hstack =>
    refine ⟨hs.drop hstack, hl.restack fun f hf i u hu _ => ?_⟩
    rcases List.mem_cons.mp hf with rfl | hf
    · exact absurd hu nofun
    · exact hstack ▸ List.mem_cons_of_mem _ hf

/-- One step keeps the queues and what has been returned. -/
theorem step_keeps (unit : α) (a : Action α) (hcalm : Calm s a) (hs : Flow s) (hl : Links s) :
    Flow (step unit s a) ∧ Links (step unit s a) := by
  have hfailed : ¬ s.failed = true := by
    rw [hs.ok]
    exact Bool.false_ne_true
  unfold step
  rw [if_neg hfailed]
  cases a with
  | new =>
    dsimp only
    split
    · exact ⟨hs.new, hl.new⟩
    · exact ⟨hs, hl⟩
  | next d =>
    dsimp only
    split
    · next hd => exact ⟨hs.attach hd.2 hcalm none, hl.attach hs.toQueues d⟩
    · exact ⟨hs, hl⟩
  | settle d kind value =>
    dsimp only
    split
    · next hd =>
      obtain ⟨-, hcount, hroot, hnone⟩ := hd
      have hreturned : s.returned d = none := by
        by_contra hne
        obtain ⟨d', hd', -⟩ := hl.returned_called d hne
        exact absurd (hroot.symm.trans hd') nofun
      refine ⟨hs.settle hcount hnone kind value, ?_⟩
      have hfinish : Links { s with
          finished := Function.update s.finished d (some (kind, value)) } := by
        refine hl.finish hs.toQueues hnone hreturned (fun _ _ => rfl) (.inl ⟨hreturned, hroot⟩) ?_
        intro f hf i u hu _ heq
        have hi := (hs.child _ i (hs.mem_attached (hs.busy f hf i u hu).2)).1
        rw [heq, hroot] at hi
        exact absurd hi nofun
      rw [settle_of_none hnone]
      exact hfinish.flush d
    · exact ⟨hs, hl⟩
  | ret result =>
    dsimp only
    split
    · next d h rest hstack =>
      split
      · next hknown =>
        exact yield_keeps hs hl hstack nofun hknown fun r hr => by
          rw [hr] at hcalm
          exact hcalm
      · exact ⟨hs, hl⟩
    · exact ⟨hs, hl⟩
  | tick => exact tick_keeps unit hs hl

end Steps

/-! ## The handlers that have returned -/

/-- A handler that has been called is running, or has returned. -/
def Answered (s : State α) : Prop :=
  ∀ d, ∀ c ∈ s.called d, s.returned c = none →
    ∃ f ∈ s.stack, ∃ t, f.task = some (c, t) ∧ t ≠ .dropping

section Answered

variable {s : State α} {d h : Nat} {rest : List Frame}

theorem Answered.of_stack (ha : Answered s) {s' : State α} (hfired : s'.fired = s.fired)
    (hreturned : ∀ c, s'.returned c = none → s.returned c = none)
    (hstack : ∀ f ∈ s.stack, ∀ c t, f.task = some (c, t) → t ≠ .dropping →
      s'.returned c = none → f ∈ s'.stack) : Answered s' := by
  intro d c hc hnone
  rw [State.called, hfired] at hc
  obtain ⟨f, hf, t, htask, ht⟩ := ha d c hc (hreturned c hnone)
  exact ⟨f, hstack f hf c t htask ht hnone, t, htask, ht⟩

theorem Answered.flush (ha : Answered s) (d : Nat) : Answered (flush s d) := by
  unfold Deferreds.flush
  split
  · exact ha
  · exact ha.of_stack rfl (fun _ hc => hc) fun f hf _ _ _ _ _ => List.mem_cons_of_mem _ hf

theorem Answered.settle (ha : Answered s) (d : Nat) (kind : Kind) (value : α) :
    Answered (settle s d kind value) := by
  unfold Deferreds.settle
  split
  · apply Answered.flush
    exact ha
  · exact ha

theorem Answered.attach (ha : Answered s) (d : Nat) (target : Option Nat) :
    Answered (attach s d target) := by
  apply Answered.flush
  exact ha

theorem Answered.fire (ha : Answered s) {kind : Kind} {value : α} {t : Task}
    (hstack : s.stack = ⟨d, none⟩ :: rest) (ht : t ≠ .dropping) :
    Answered (fire s d h kind value t rest) := by
  intro d' c hc hnone
  rcases mem_called_fire.mp hc with hc | ⟨-, rfl⟩
  · obtain ⟨f, hf, t', htask, ht'⟩ := ha d' c hc hnone
    rw [hstack] at hf
    rcases List.mem_cons.mp hf with rfl | hf
    · exact absurd htask nofun
    · exact ⟨f, List.mem_cons_of_mem _ hf, t', htask, ht'⟩
  · exact ⟨_, List.mem_cons_self, t, rfl, ht⟩

theorem Answered.yield (ha : Answered s) {t : Task} (hstack : s.stack = ⟨d, some (h, t)⟩ :: rest)
    (result : Result α) : Answered (yield s d h result rest) := by
  have hanswered : Answered { s with
      stack := ⟨d, some (h, .dropping)⟩ :: rest
      returned := Function.update s.returned h (some result) } := by
    have hne {c : Nat} (hc : Function.update s.returned h (some result) c = none) : c ≠ h := by
      rintro rfl
      rw [Function.update_self] at hc
      exact absurd hc nofun
    refine ha.of_stack rfl (fun c hc => ?_) fun f hf c u htask _ hc => ?_
    · exact (Function.update_of_ne (hne hc) ..).symm.trans hc
    · rw [hstack] at hf
      rcases List.mem_cons.mp hf with rfl | hf
      · cases htask
        exact absurd rfl (hne hc)
      · exact List.mem_cons_of_mem _ hf
  unfold Deferreds.yield
  dsimp only
  split
  · exact hanswered.settle h _ _
  · exact hanswered
  · exact hanswered.attach _ _

theorem Answered.tick (ha : Answered s) (unit : α) : Answered (tick unit s) := by
  unfold Deferreds.tick
  split
  · exact ha
  · next d rest hstack =>
    split
    · split
      · exact ha.fire hstack nofun
      · next kind value h _ _ _ _ n _ =>
        have hsettling : Answered (Deferreds.fire s d h kind value .settling rest) :=
          ha.fire hstack nofun
        exact hsettling.settle n kind value
    · refine ha.of_stack rfl (fun _ hc => hc) fun f hf c t htask _ _ => ?_
      rw [hstack] at hf
      rcases List.mem_cons.mp hf with rfl | hf
      · exact absurd htask nofun
      · exact hf
  · exact ha
  · next d h rest hstack => exact ha.yield hstack _
  · next d h rest hstack =>
    refine ha.of_stack rfl (fun _ hc => hc) fun f hf c t htask ht _ => ?_
    rw [hstack] at hf
    rcases List.mem_cons.mp hf with rfl | hf
    · cases htask
      exact absurd rfl ht
    · exact List.mem_cons_of_mem _ hf

theorem Answered.step (ha : Answered s) (unit : α) (a : Action α) : Answered (step unit s a) := by
  unfold Deferreds.step
  split
  · exact ha
  · cases a with
    | new =>
      dsimp only
      split
      · exact ha
      · exact ha
    | next d =>
      dsimp only
      split
      · exact ha.attach d none
      · exact ha
    | settle d kind value =>
      dsimp only
      split
      · exact ha.settle d kind value
      · exact ha
    | ret result =>
      dsimp only
      split
      · next d h rest hstack =>
        split
        · exact ha.yield hstack result
        · exact ha
      · exact ha
    | tick => exact ha.tick unit

end Answered

/-! ## The law -/

/-- The handlers of a deferred are called when it has been settled, by the value and of the kind,
once each and in their order, and none is left when the loops have ended; and a child is settled
once, with what its handler has returned, or as the deferred that its handler has returned. -/
structure Lawful (s : State α) : Prop where
  /-- No deferred is settled twice. -/
  ok : s.failed = false
  own : ∀ d, ∀ c ∈ s.attached d, s.parent c = some d
  once : ∀ d, (s.called d).Nodup
  order : ∀ d, s.called d <+: s.attached d
  value : ∀ d, ∀ x ∈ s.fired d, s.finished d = some (x.kind, x.value)
  all : s.stack = [] → ∀ d, s.finished d ≠ none → s.called d = s.attached d
  answered : s.stack = [] → ∀ d, ∀ c ∈ s.called d, s.returned c ≠ none
  plain : ∀ c w, s.returned c = some (.plain w) → ∃ d kind v, s.parent c = some d ∧
    s.finished d = some (kind, v) ∧ s.finished c = some (kind, w)
  follows : s.stack = [] → ∀ c r, s.returned c = some (.deferred r) → s.finished c = s.finished r
  chained : ∀ c, s.parent c ≠ none → s.finished c ≠ none →
    (∃ w, s.returned c = some (.plain w)) ∨
      ∃ r, s.returned c = some (.deferred r) ∧ s.finished c = s.finished r

theorem lawful_of_links {s : State α} (hs : Flow s) (hl : Links s) (ha : Answered s) :
    Lawful s := by
  have hall (hstack : s.stack = []) (d : Nat) (hd : s.finished d ≠ none) :
      s.called d = s.attached d := by
    have hqueue := hs.empty d hd (hstack ▸ List.not_mem_nil)
    have horder := hs.order d
    rw [hstack, taskOf_of_not_mem List.not_mem_nil, pending, if_pos rfl, hqueue,
      List.append_nil] at horder
    exact horder.symm
  refine ⟨hs.ok, fun d c hc => (hs.child d c hc).1, fun d => ?_, fun d => ?_, hs.value, hall,
    fun hstack d c hc hnone => ?_, hl.plain, fun hstack c r hr => ?_, fun c hc hfinished => ?_⟩
  · have hdistinct := hs.distinct d
    rw [hs.order d] at hdistinct
    exact (List.nodup_append.mp hdistinct).1
  · rw [hs.order d]
    exact List.prefix_append _ _
  · obtain ⟨f, hf, -⟩ := ha d c hc hnone
    rw [hstack] at hf
    exact List.not_mem_nil hf
  · obtain ⟨m, hm, htarget⟩ := hl.linked c r hr
    rw [hl.settled m c r htarget hm]
    by_cases hdone : s.finished r = none
    · rw [hdone, ite_self]
    · rw [if_pos]
      rw [hall hstack r hdone]
      exact hm
  · cases hresult : s.returned c with
    | none => exact absurd hresult (hl.chained c hc hfinished)
    | some result =>
      cases result with
      | plain w => exact .inl ⟨w, rfl⟩
      | deferred r =>
        refine .inr ⟨r, rfl, ?_⟩
        obtain ⟨m, hm, htarget⟩ := hl.linked c r hresult
        have hsettled := hl.settled m c r htarget hm
        split at hsettled
        · exact hsettled
        · exact absurd hsettled hfinished

/-- The law holds in every state of a run in which nothing is attached to a deferred whose loop is
going on. -/
theorem lawful_run (unit : α) (as : List (Action α))
    (hcalm : Machine.Along Calm (step unit) State.init as) :
    Lawful (Machine.run (step unit) State.init as) := by
  have hinv : ∀ s a, Calm s a → (Flow s ∧ Links s) ∧ Answered s →
      (Flow (step unit s a) ∧ Links (step unit s a)) ∧ Answered (step unit s a) :=
    fun s a ha h => ⟨step_keeps unit a ha h.1.1 h.1.2, h.2.step unit a⟩
  obtain ⟨⟨hs, hl⟩, ha⟩ := hcalm.inv hinv ⟨⟨flow_init, links_init⟩, fun _ _ hc => absurd hc nofun⟩
  exact lawful_of_links hs hl ha

/-- A handler returns a deferred, and the next one is called when that deferred is rejected. -/
theorem lawful_run_chain : Lawful (Machine.run (step 0) State.init
    [.new, .next 0, .next 1, .new, .settle 0 .resolve 123, .tick, .ret (.deferred 3), .tick, .tick,
      .settle 3 .reject 7, .tick, .tick, .ret (.plain 9), .tick]) :=
  lawful_run 0 _ ⟨trivial, by decide, by decide, trivial, trivial, trivial, by decide, trivial,
    trivial, trivial, trivial, trivial, trivial, trivial, trivial⟩

/-- A handler attaches another one to its own deferred, and is called again: the loop that starts
then finds it at the head of the queue. -/
theorem called_twice : ¬ Lawful (Machine.run (step 0) State.init
    [.new, .next 0, .settle 0 .resolve 1, .tick, .next 0, .tick]) :=
  fun h => absurd (h.once 0) (by decide)

end Deferreds

end Zuckerserv
