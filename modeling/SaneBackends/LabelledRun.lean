import Mathlib.Data.List.Basic

/-!
# Runs of a step relation

A program that takes one input after the other: `step s i s'` says that input `i`
takes state `s` to `s'`.  A run is a list of inputs with the state they lead to.
What every step keeps holds of every state a run reaches; an invariant may speak
of the inputs taken so far as well.
-/

namespace SaneBackends.LabelledRun

variable {σ ι : Type*}

inductive Run (step : σ → ι → σ → Prop) (s₀ : σ) : List ι → σ → Prop
  | nil : Run step s₀ [] s₀
  | snoc {is : List ι} {s s' : σ} {i : ι} :
      Run step s₀ is s → step s i s' → Run step s₀ (is ++ [i]) s'

variable {step : σ → ι → σ → Prop} {s₀ s s' : σ} {is js : List ι}

/-- What holds at the start and is kept by every step holds of every state reached. -/
theorem Run.invariant (h : Run step s₀ is s) {I : σ → Prop} (h0 : I s₀)
    (hstep : ∀ s i s', I s → step s i s' → I s') : I s := by
  induction h with
  | nil => exact h0
  | snoc _ hs ih => exact hstep _ _ _ ih hs

/-- The same for an invariant about the inputs taken so far. -/
theorem Run.history (h : Run step s₀ is s) {I : List ι → σ → Prop} (h0 : I [] s₀)
    (hstep : ∀ is s i s', I is s → step s i s' → I (is ++ [i]) s') : I is s := by
  induction h with
  | nil => exact h0
  | snoc _ hs ih => exact hstep _ _ _ _ ih hs

/-- A run that may do more is a run of the larger step relation. -/
theorem Run.mono {step' : σ → ι → σ → Prop} (h : Run step s₀ is s)
    (hle : ∀ s i s', step s i s' → step' s i s') : Run step' s₀ is s := by
  induction h with
  | nil => exact .nil
  | snoc _ hs ih => exact ih.snoc (hle _ _ _ hs)

theorem Run.append (h₁ : Run step s₀ is s) (h₂ : Run step s js s') :
    Run step s₀ (is ++ js) s' := by
  induction h₂ with
  | nil => rwa [List.append_nil]
  | snoc _ hs ih =>
    rw [← List.append_assoc]
    exact ih.snoc hs

/-- A run of a function goes on. -/
theorem Run.foldl {next : σ → ι → σ} (h : Run (fun s i s' => next s i = s') s₀ is s)
    (js : List ι) : Run (fun s i s' => next s i = s') s₀ (is ++ js) (js.foldl next s) := by
  induction js generalizing is s with
  | nil => rwa [List.append_nil]
  | cons j js ih =>
    rw [List.append_cons]
    exact ih (h.snoc rfl)

/-- The state some inputs lead to, for a step that is a partial function. -/
def runAll (exec : σ → ι → Option σ) : List ι → σ → Option σ
  | [], s => some s
  | i :: is, s => (exec s i).bind (runAll exec is)

theorem Run.runAll {exec : σ → ι → Option σ} (h : Run step s₀ is s)
    (hexec : ∀ s i s', exec s i = some s' → step s i s') (hall : runAll exec js s = some s') :
    Run step s₀ (is ++ js) s' := by
  induction js generalizing s is with
  | nil =>
    cases hall
    rwa [List.append_nil]
  | cons i js ih =>
    obtain ⟨u, hi, hrest⟩ := Option.bind_eq_some_iff.mp hall
    rw [List.append_cons]
    exact ih (h.snoc (hexec _ _ _ hi)) hrest

theorem Run.of_runAll {exec : σ → ι → Option σ} (hall : LabelledRun.runAll exec js s = some s')
    (hexec : ∀ s i s', exec s i = some s' → step s i s') : Run step s js s' := by
  have hrun := Run.runAll (.nil : Run step s [] s) hexec hall
  rwa [List.nil_append] at hrun

/-! ### Runs without an end -/

variable {next : σ → ι → σ} {inputs : Nat → ι}

/-- The states of a program that takes the inputs one after the other. -/
def states (next : σ → ι → σ) (inputs : Nat → ι) (s₀ : σ) : Nat → σ
  | 0 => s₀
  | n + 1 => next (states next inputs s₀ n) (inputs n)

@[simp] theorem states_zero : states next inputs s₀ 0 = s₀ := rfl

/-- What is kept by a step that meets a condition holds as long as all steps meet it. -/
theorem states_invariant {I : σ → Prop} {P : σ → ι → Prop} (h0 : I s₀)
    (hstep : ∀ s i, I s → P s i → I (next s i))
    (hP : ∀ n, P (states next inputs s₀ n) (inputs n)) (n : Nat) :
    I (states next inputs s₀ n) := by
  induction n with
  | zero => exact h0
  | succ n ih => exact hstep _ _ ih (hP n)

/-- What makes a measure go down as long as it has not happened, happens. -/
theorem exists_of_measure {Q : Nat → Prop} (measure : Nat → Nat)
    (h : ∀ n, ¬ Q n → measure (n + 1) < measure n) : ∃ n, Q n := by
  by_contra hnone
  have hdown : ∀ n, measure n + n ≤ measure 0 := by
    intro n
    induction n with
    | zero => exact Nat.le_refl _
    | succ n ih =>
      have hlt := h n fun hQ => hnone ⟨n, hQ⟩
      omega
  have hlast := hdown (measure 0 + 1)
  omega

end SaneBackends.LabelledRun
