import Mathlib.Order.WellFounded
import StdDaq.Lib.Run

/-!
# What must happen

`Inevitable step goal s` says that the goal is reached from `s` whatever is chosen: it holds
already, or something can happen and after everything that can happen it is inevitable again. The
definition is inductive, so it is about finitely many steps, and it asks nothing of a scheduler but
that it does not stop while something can happen.

## Main results

* `Inevitable.of_rank` — a rank that every step lowers
* `Inevitable.of_rank_delayed` — a rank that idle steps keep and every other step lowers
* `Inevitable.exists_run` — what is inevitable is possible
-/

variable {σ ε : Type*}

/-- The goal is reached on every way from `s`. -/
inductive Inevitable (step : σ → ε → σ → Prop) (goal : σ → Prop) : σ → Prop where
  | now {s : σ} : goal s → Inevitable step goal s
  | later {s : σ} : (∃ e t, step s e t) → (∀ e t, step s e t → Inevitable step goal t) →
      Inevitable step goal s

/-- **The rank rule**: while `P` holds something can happen, and whatever happens reaches the goal
or keeps `P` and lowers the rank. -/
theorem Inevitable.of_rank {step : σ → ε → σ → Prop} {goal P : σ → Prop} {α : Type*} [Preorder α]
    [WellFoundedLT α] (rank : σ → α)
    (hstep : ∀ s e t, P s → step s e t → goal t ∨ P t ∧ rank t < rank s)
    (henabled : ∀ s, P s → ∃ e t, step s e t) {s : σ} (h : P s) : Inevitable step goal s := by
  -- The induction is on the rank, for every state that has it.
  obtain ⟨r, hr⟩ : ∃ r, rank s = r := ⟨_, rfl⟩
  induction r using WellFoundedLT.induction generalizing s with
  | ind r ih =>
    subst hr
    refine .later (henabled s h) fun e t hst => ?_
    rcases hstep s e t h hst with hgoal | ⟨ht, hlt⟩
    · exact .now hgoal
    · exact ih (rank t) hlt ht rfl

theorem Inevitable.mono {step : σ → ε → σ → Prop} {goal goal' : σ → Prop} {s : σ}
    (h : Inevitable step goal s) (hgoal : ∀ s, goal s → goal' s) : Inevitable step goal' s := by
  induction h with
  | now hs => exact .now (hgoal _ hs)
  | later henabled _ ih => exact .later henabled ih

/-- What is inevitable is possible. -/
theorem Inevitable.exists_run {step : σ → ε → σ → Prop} {goal : σ → Prop} {s : σ}
    (h : Inevitable step goal s) : ∃ es t, Run step s es t ∧ goal t := by
  induction h with
  | @now s hgoal => exact ⟨[], s, .nil, hgoal⟩
  | later henabled _ ih =>
    obtain ⟨e, t, hstep⟩ := henabled
    obtain ⟨es, u, hrun, hgoal⟩ := ih e t hstep
    exact ⟨e :: es, u, Run.cons_iff.mpr ⟨t, hstep, hrun⟩, hgoal⟩

/-! ### Idle steps -/

/-- A step after any number of idle ones. What is inevitable with such steps happens however often a
system idles in between, as long as it does not idle for good. -/
def Delayed (idle : σ → ε → Prop) (step : σ → ε → σ → Prop) : σ → ε → σ → Prop :=
  fun s e u => ∃ es t, Run (Restrict idle step) s es t ∧ ¬ idle t e ∧ step t e u

theorem Run.of_delayed {idle : σ → ε → Prop} {step : σ → ε → σ → Prop} {s t : σ} {es : List ε}
    (h : Run (Delayed idle step) s es t) : ∃ es', Run step s es' t := by
  induction h with
  | nil => exact ⟨[], .nil⟩
  | snoc _ hlast ih =>
    obtain ⟨es, hrun⟩ := ih
    obtain ⟨idling, v, hidle, -, hstep⟩ := hlast
    exact ⟨_, (hrun.append (hidle.mono fun _ _ _ h => h.2)).snoc hstep⟩

/-- **The rank rule with idle steps**: they keep `P` and do not raise the rank, and every other step
reaches the goal or keeps `P` and lowers the rank. -/
theorem Inevitable.of_rank_delayed {idle : σ → ε → Prop} {step : σ → ε → σ → Prop}
    {goal P : σ → Prop} {α : Type*} [Preorder α] [WellFoundedLT α] (rank : σ → α)
    (hidle : ∀ s e t, P s → idle s e → step s e t → P t ∧ rank t ≤ rank s)
    (hstep : ∀ s e t, P s → ¬ idle s e → step s e t → goal t ∨ P t ∧ rank t < rank s)
    (henabled : ∀ s, P s → ∃ e t, Delayed idle step s e t) {s : σ} (h : P s) :
    Inevitable (Delayed idle step) goal s := by
  refine .of_rank rank ?_ henabled h
  rintro s e u hs ⟨es, t, hrun, hnot, hlast⟩
  obtain ⟨ht, hle⟩ : P t ∧ rank t ≤ rank s := by
    refine hrun.invariant (P := fun t => P t ∧ rank t ≤ rank s) ?_ ⟨hs, le_rfl⟩
    rintro t e u ⟨ht, hle⟩ ⟨hidling, hone⟩
    obtain ⟨hu, hone⟩ := hidle t e u ht hidling hone
    exact ⟨hu, hone.trans hle⟩
  rcases hstep t e u ht hnot hlast with hgoal | ⟨hu, hlt⟩
  · exact .inl hgoal
  · exact .inr ⟨hu, hlt.trans_le hle⟩
