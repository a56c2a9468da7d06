import Zuckerserv.Lib.Machine

/-!
# Two machines with the same actions

A machine as it is, and one that says what it should do. As long as they are related, both show the
same.

* `Machine.agree_iff_along` — they show the same in all states of a run if and only if every action
  is one that keeps them related.
-/

namespace Zuckerserv

namespace Machine

variable {σ τ α β : Type} {step : σ → α → σ} {spec : τ → α → τ} {shown : σ → β} {meant : τ → β}
  {R : σ → τ → Prop} {ok : τ → α → Prop}

/-- Where an allowed action keeps the machines related, and any other one shows at once, the
machines show the same in all states of a run if and only if every action is allowed. -/
theorem agree_iff_along (hshown : ∀ s t, R s t → shown s = meant t)
    (hstep : ∀ s t a, R s t → ok t a → R (step s a) (spec t a))
    (hbad : ∀ s t a, R s t → ¬ ok t a → shown (step s a) ≠ meant (spec t a)) {s : σ} {t : τ}
    (h : R s t) (as : List α) :
    (∀ bs cs, as = bs ++ cs → shown (run step s bs) = meant (run spec t bs)) ↔
      Along ok spec t as := by
  induction as generalizing s t with
  | nil =>
    refine ⟨fun _ => trivial, fun _ bs cs hbs => ?_⟩
    obtain ⟨rfl, -⟩ := List.append_eq_nil_iff.mp hbs.symm
    exact hshown s t h
  | cons a as ih =>
    constructor
    · intro hagree
      have hok : ok t a := by
        by_contra hnot
        exact hbad s t a h hnot (hagree [a] as rfl)
      refine ⟨hok, (ih (hstep s t a h hok)).mp fun bs cs hbs => ?_⟩
      exact hagree (a :: bs) cs (congrArg (a :: ·) hbs)
    · rintro ⟨hok, hrest⟩ bs cs hbs
      cases bs with
      | nil => exact hshown s t h
      | cons b bs =>
        obtain ⟨rfl, hrest'⟩ := List.cons.inj hbs
        exact (ih (hstep s t a h hok)).mpr hrest bs cs hrest'

end Machine

end Zuckerserv
