import Mathlib.Logic.Basic
import Mathlib.Data.List.Induction

/-!
# Runs of a labelled transition relation

A system is a relation `step : σ → ε → σ → Prop` between a state, what happens, and the next
state. A function `σ → ε → σ` and a partial function `σ → ε → Option σ` are the relations
`Steps.total` and `Steps.guarded`. `Run step s es t` says that the events `es`, in this order,
lead from `s` to `t`.

Runs grow at their end, so an invariant is proved by one case for the empty run and one for a
last step. A run all of whose steps meet a condition is a run of the relation `Restrict`, which
keeps the condition out of the definition of a run and lets every rule apply to such runs as
well.

## Main results

* `Run.invariant` — what every step preserves, every run preserves
* `Run.append`, `Run.split` — runs compose and come apart
* `CanReach.trans` — what can be reached in stages
* `Throughout.exists_run` — progress and preservation
* `Run.of_exec` — a run of a partial function is found by evaluating it
* `holds_iff_restrict` — what a run keeps exactly when its steps meet a condition
-/

variable {σ ε : Type*}

/-- A total transition function as a relation. -/
def Steps.total (f : σ → ε → σ) : σ → ε → σ → Prop := fun s e t => f s e = t

/-- A partial transition function as a relation: no value means that the event cannot happen. -/
def Steps.guarded (f : σ → ε → Option σ) : σ → ε → σ → Prop := fun s e t => f s e = some t

/-- The steps that meet a condition on the state before the step and on the event. -/
def Restrict (ok : σ → ε → Prop) (step : σ → ε → σ → Prop) : σ → ε → σ → Prop :=
  fun s e t => ok s e ∧ step s e t

/-- `Run step s es t`: the events `es` lead from `s` to `t`. -/
inductive Run (step : σ → ε → σ → Prop) (s : σ) : List ε → σ → Prop where
  | nil : Run step s [] s
  | snoc {es : List ε} {t u : σ} {e : ε} : Run step s es t → step t e u →
      Run step s (es ++ [e]) u

namespace Run

variable {step step' : σ → ε → σ → Prop} {s t u : σ} {es es' : List ε}

/-- **The invariant rule.** -/
theorem invariant {P : σ → Prop} (hstep : ∀ t e u, P t → step t e u → P u)
    (h : Run step s es t) (h0 : P s) : P t := by
  induction h with
  | nil => exact h0
  | snoc _ hlast ih => exact hstep _ _ _ ih hlast

/-- Weakening the steps keeps the run. -/
theorem mono (hle : ∀ s e t, step s e t → step' s e t) (h : Run step s es t) :
    Run step' s es t := by
  induction h with
  | nil => exact .nil
  | snoc _ hlast ih => exact ih.snoc (hle _ _ _ hlast)

theorem single {e : ε} (h : step s e t) : Run step s [e] t :=
  show Run step s ([] ++ [e]) t from Run.nil.snoc h

theorem append (h : Run step s es t) (h' : Run step t es' u) : Run step s (es ++ es') u := by
  induction h' with
  | nil => simpa using h
  | snoc _ hlast ih => rw [← List.append_assoc]; exact ih.snoc hlast

theorem nil_iff : Run step s [] t ↔ s = t := by
  constructor
  · intro h
    generalize hes : ([] : List ε) = es at h
    cases h with
    | nil => rfl
    | snoc _ _ => simp at hes
  · rintro rfl
    exact .nil

theorem snoc_iff {e : ε} : Run step s (es ++ [e]) u ↔ ∃ t, Run step s es t ∧ step t e u := by
  constructor
  · intro h
    generalize hes : es ++ [e] = es' at h
    cases h with
    | nil => simp at hes
    | snoc hrun hlast =>
      obtain ⟨rfl, hlist⟩ := List.append_inj' hes rfl
      obtain rfl := List.head_eq_of_cons_eq hlist
      exact ⟨_, hrun, hlast⟩
  · rintro ⟨t, hrun, hlast⟩
    exact hrun.snoc hlast

/-- A run over a concatenation passes through a state in between. -/
theorem split (h : Run step s (es ++ es') u) : ∃ t, Run step s es t ∧ Run step t es' u := by
  induction es' using List.reverseRecOn generalizing u with
  | nil => exact ⟨u, by simpa using h, .nil⟩
  | append_singleton es' e ih =>
    rw [← List.append_assoc, snoc_iff] at h
    obtain ⟨v, hrun, hlast⟩ := h
    obtain ⟨t, hst, htv⟩ := ih hrun
    exact ⟨t, hst, htv.snoc hlast⟩

theorem cons_iff {e : ε} : Run step s (e :: es) u ↔ ∃ t, step s e t ∧ Run step t es u := by
  constructor
  · intro h
    obtain ⟨t, hst, htu⟩ := split (show Run step s ([e] ++ es) u from h)
    obtain ⟨r, hsr, hlast⟩ := snoc_iff.mp (show Run step s ([] ++ [e]) t from hst)
    obtain rfl := nil_iff.mp hsr
    exact ⟨t, hlast, htu⟩
  · rintro ⟨t, hfirst, hrun⟩
    exact (single hfirst).append hrun

/-- A run of a total function that meets a condition, built from its first step. -/
theorem cons_total {ok : σ → ε → Prop} {f : σ → ε → σ} {e : ε} (hok : ok s e)
    (h : Run (Restrict ok (Steps.total f)) (f s e) es t) :
    Run (Restrict ok (Steps.total f)) s (e :: es) t :=
  cons_iff.mpr ⟨f s e, ⟨hok, rfl⟩, h⟩

end Run

/-- Every event of a list meets a condition on the events before it, the state that they lead to,
and the event. -/
def Throughout (ok : List ε → σ → ε → Prop) (step : σ → ε → σ → Prop) (s : σ) (es : List ε) :
    Prop :=
  ∀ before e after t, es = before ++ e :: after → Run step s before t → ok before t e

section Throughout

variable {ok : List ε → σ → ε → Prop} {step : σ → ε → σ → Prop} {s t : σ} {es : List ε} {e : ε}

theorem throughout_nil : Throughout ok step s [] := by
  intro before e after t h
  simp at h

theorem throughout_snoc_iff :
    Throughout ok step s (es ++ [e]) ↔
      Throughout ok step s es ∧ ∀ t, Run step s es t → ok es t e := by
  constructor
  · refine fun h => ⟨?_, fun t hrun => h es e [] t rfl hrun⟩
    rintro before e' after t rfl
    exact h before e' (after ++ [e]) t (by simp)
  · rintro ⟨hes, hlast⟩ before e' after t heq hrun
    rcases List.eq_nil_or_concat after with rfl | ⟨after, last, rfl⟩
    · obtain ⟨rfl, he⟩ := List.append_inj' heq rfl
      obtain rfl := List.head_eq_of_cons_eq he
      exact hlast t hrun
    · rw [List.concat_eq_append, ← List.cons_append, ← List.append_assoc] at heq
      obtain ⟨rfl, -⟩ := List.append_inj' heq rfl
      exact hes before e' after t rfl hrun

/-- **Progress and preservation.** When every event that meets the condition can happen and keeps
the invariant, a list of events that meet it runs through. -/
theorem Throughout.exists_run {P : σ → Prop} (h : Throughout ok step s es) (h0 : P s)
    (hprogress : ∀ es t e, P t → ok es t e → ∃ u, step t e u)
    (hpreserve : ∀ es t e u, P t → ok es t e → step t e u → P u) :
    ∃ t, Run step s es t ∧ P t := by
  induction es using List.reverseRecOn with
  | nil => exact ⟨s, .nil, h0⟩
  | append_singleton es e ih =>
    obtain ⟨hes, hlast⟩ := throughout_snoc_iff.mp h
    obtain ⟨t, hrun, ht⟩ := ih hes
    have hok := hlast t hrun
    obtain ⟨u, hstep⟩ := hprogress es t e ht hok
    exact ⟨u, hrun.snoc hstep, hpreserve es t e u ht hok hstep⟩

end Throughout

/-- From every state of `P` a run leads to a state of `Q`. -/
def CanReach (step : σ → ε → σ → Prop) (P Q : σ → Prop) : Prop :=
  ∀ s, P s → ∃ es t, Run step s es t ∧ Q t

namespace CanReach

variable {step : σ → ε → σ → Prop} {P Q R : σ → Prop}

theorem of_imp (h : ∀ s, P s → Q s) : CanReach step P Q := fun s hs => ⟨[], s, .nil, h s hs⟩

theorem trans (h : CanReach step P Q) (h' : CanReach step Q R) : CanReach step P R := by
  intro s hs
  obtain ⟨es, t, hst, ht⟩ := h s hs
  obtain ⟨es', u, htu, hu⟩ := h' t ht
  exact ⟨es ++ es', u, hst.append htu, hu⟩

theorem single (h : ∀ s, P s → ∃ e t, step s e t ∧ Q t) : CanReach step P Q := by
  intro s hs
  obtain ⟨e, t, hst, ht⟩ := h s hs
  exact ⟨[e], t, .single hst, ht⟩

end CanReach

/-- Evaluate a partial transition function along a list of events. -/
def exec (f : σ → ε → Option σ) : σ → List ε → Option σ
  | s, [] => some s
  | s, e :: es => (f s e).bind fun t => exec f t es

theorem exec_append {f : σ → ε → Option σ} {s : σ} {es es' : List ε} :
    exec f s (es ++ es') = (exec f s es).bind fun t => exec f t es' := by
  induction es generalizing s with
  | nil => rfl
  | cons e es ih =>
    rw [List.cons_append, exec, exec, Option.bind_assoc]
    congr 1
    funext t
    exact ih

theorem Run.of_exec {f : σ → ε → Option σ} {s t : σ} {es : List ε} (h : exec f s es = some t) :
    Run (Steps.guarded f) s es t := by
  induction es generalizing s with
  | nil => exact nil_iff.mpr (Option.some.inj h)
  | cons e es ih =>
    obtain ⟨r, hr, hrest⟩ := Option.bind_eq_some_iff.mp h
    exact cons_iff.mpr ⟨r, hr, ih hrest⟩

/-- A partial function has at most one run over each list of events. -/
theorem Run.exec_eq {f : σ → ε → Option σ} {s t : σ} {es : List ε}
    (h : Run (Steps.guarded f) s es t) : exec f s es = some t := by
  induction h with
  | nil => rfl
  | snoc _ hlast ih => rw [exec_append, ih, Option.bind_some, exec, hlast]; rfl

/-- Append an event that meets the condition in the state that was found by evaluation. -/
theorem Throughout.snoc_exec {ok : List ε → σ → ε → Prop} {f : σ → ε → Option σ} {s t : σ}
    {es : List ε} {e : ε} (h : Throughout ok (Steps.guarded f) s es)
    (hexec : exec f s es = some t) (hok : ok es t e) :
    Throughout ok (Steps.guarded f) s (es ++ [e]) := by
  refine throughout_snoc_iff.mpr ⟨h, fun u hrun => ?_⟩
  obtain rfl : t = u := Option.some.inj (hexec.symm.trans hrun.exec_eq)
  exact hok

/-- A partial transition function cut down to the steps that meet a condition. -/
def only (ok : σ → ε → Prop) [∀ s e, Decidable (ok s e)] (f : σ → ε → Option σ) :
    σ → ε → Option σ :=
  fun s e => if ok s e then f s e else none

theorem Run.of_exec_only {ok : σ → ε → Prop} [∀ s e, Decidable (ok s e)] {f : σ → ε → Option σ}
    {s t : σ} {es : List ε} (h : exec (only ok f) s es = some t) :
    Run (Restrict ok (Steps.guarded f)) s es t := by
  refine (Run.of_exec h).mono fun s e u hstep => ?_
  have hstep : (if ok s e then f s e else none) = some u := hstep
  split at hstep
  · exact ⟨‹_›, hstep⟩
  · cases hstep

/-- A total function has exactly one run over each list of events. -/
theorem run_total_iff {f : σ → ε → σ} {s t : σ} {es : List ε} :
    Run (Steps.total f) s es t ↔ es.foldl f s = t := by
  induction es generalizing s with
  | nil => exact Run.nil_iff
  | cons e es ih =>
    rw [Run.cons_iff, List.foldl_cons]
    constructor
    · rintro ⟨r, rfl, hrun⟩
      exact ih.mp hrun
    · intro h
      exact ⟨f s e, rfl, ih.mpr h⟩

theorem Throughout.snoc_total {ok : List ε → σ → ε → Prop} {f : σ → ε → σ} {s : σ} {es : List ε}
    {e : ε} (h : Throughout ok (Steps.total f) s es) (hok : ok es (es.foldl f s) e) :
    Throughout ok (Steps.total f) s (es ++ [e]) := by
  refine throughout_snoc_iff.mpr ⟨h, fun u hrun => ?_⟩
  obtain rfl := run_total_iff.mp hrun
  exact hok

/-- The last step of a run of a total function meets a condition in the state before it. -/
theorem restrict_total_snoc_iff {ok : σ → ε → Prop} {f : σ → ε → σ} {s t : σ} {es : List ε} {e : ε}
    (h : Run (Steps.total f) s es t) :
    Run (Restrict ok (Steps.total f)) s (es ++ [e]) (f t e) ↔
      Run (Restrict ok (Steps.total f)) s es t ∧ ok t e := by
  rw [Run.snoc_iff]
  constructor
  · rintro ⟨t', hrun, hok, -⟩
    -- both runs are the one run over `es`
    have hsame : t' = t :=
      (run_total_iff.mp (hrun.mono fun _ _ _ hstep => hstep.2)).symm.trans (run_total_iff.mp h)
    subst hsame
    exact ⟨hrun, hok⟩
  · rintro ⟨hrun, hok⟩
    exact ⟨t, hrun, hok, rfl⟩

/-- A property of states that a step keeps exactly when it meets a condition: it holds after a run
exactly when all steps of the run met the condition. -/
theorem holds_iff_restrict {ok : σ → ε → Prop} {f : σ → ε → σ} {s t : σ} {es : List ε}
    {Q : σ → Prop} (h : Run (Steps.total f) s es t) (h0 : Q s)
    (hstep : ∀ es t e, Run (Steps.total f) s es t → (Q (f t e) ↔ Q t ∧ ok t e)) :
    Q t ↔ Run (Restrict ok (Steps.total f)) s es t := by
  induction h with
  | nil => exact ⟨fun _ => .nil, fun _ => h0⟩
  | @snoc es t u e hrun hlast ih =>
    obtain rfl : f t e = u := hlast
    rw [restrict_total_snoc_iff hrun, ← ih]
    exact hstep es t e hrun
