import Mathlib.Data.Option.Basic

/-!
# Runs of a transition system

A system is a step function from a state and an action to the next state, `none` when the step
panics; a run applies actions in turn. An invariant that every step keeps holds along every run
(`run_inv`), and a run of steps that never panic from the invariant's states never panics
(`run_isSome`).

A history is kept by pairing the state with what an observer records at each step (`observe`).
The paired system runs as the original on its first component (`run_observe`), so that a property
stated with the history is a property of the original's runs.
-/

namespace Run

variable {σ α η : Type} (step : σ → α → Option σ)

/-- The state after the actions, `none` if a step panics. -/
def run : σ → List α → Option σ
  | s, [] => some s
  | s, a :: as => (step s a).bind fun s' => run s' as

@[simp] theorem run_nil (s : σ) : run step s []=some s :=
  rfl

@[simp] theorem run_cons (s : σ) (a : α) (as : List α) :
    run step s (a :: as)=(step s a).bind fun s' => run step s' as :=
  rfl

theorem run_append (s : σ) (as bs : List α) :
    run step s (as++bs)=(run step s as).bind fun s' => run step s' bs := by
  induction as generalizing s with
  | nil => rfl
  | cons a as ih =>
    simp only [List.cons_append,run_cons,ih]
    cases step s a <;> rfl

/-- `I` is kept by every step that does not panic. -/
def Inductive (I : σ → Prop) : Prop :=
  ∀ s a s', I s → step s a=some s' → I s'

variable {step}

/-- An inductive invariant holds after every run from a state where it holds. By induction on
the run, one step at a time. -/
theorem run_inv {I : σ → Prop} (hI : Inductive step I) :
    ∀ {s s' : σ} (as : List α), I s → run step s as=some s' → I s'
  | _, _, [], h0, h => by
    cases h
    exact h0
  | s, s', a :: as, h0, h => by
    obtain ⟨s₁,h₁,h₂⟩ := Option.bind_eq_some_iff.mp h
    exact run_inv hI as (hI s a s₁ h0 h₁) h₂

/-- A run from a state of an inductive invariant whose states never panic does not panic. -/
theorem run_isSome {I : σ → Prop} (hI : Inductive step I) (hs : ∀ s a, I s → (step s a).isSome) :
    ∀ {s : σ} (as : List α), I s → (run step s as).isSome
  | _, [], _ => rfl
  | s, a :: as, h0 => by
    obtain ⟨s₁,h₁⟩ := Option.isSome_iff_exists.mp (hs s a h0)
    rw [run_cons,h₁,Option.bind_some]
    exact run_isSome hI hs as (hI s a s₁ h0 h₁)

variable (step)

/-- The step paired with a history: `obs s a s'` is what the step from `s` to `s'` by `a` does to
the history. -/
def observe (obs : σ → α → σ → η → η) (p : σ × η) (a : α) : Option (σ × η) :=
  (step p.1 a).map fun s' => (s',obs p.1 a s' p.2)

/-- The paired system runs as the original on its states. -/
theorem run_observe (obs : σ → α → σ → η → η) :
    ∀ (s : σ) (h : η) (as : List α), (run (observe step obs) (s,h) as).map Prod.fst=run step s as
  | _, _, [] => rfl
  | s, h, a :: as => by
    simp only [run_cons,observe]
    cases step s a with
    | none => rfl
    | some s' => exact run_observe obs s' (obs s a s' h) as

end Run
