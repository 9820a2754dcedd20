import Mathlib.Logic.Basic

/-!
# Programs with a state and a fault

`FaultM σ ε α` is a program that runs on a state `σ` and either returns a value
with the state it leaves, or faults.  A fault stands for behaviour the modelled
language leaves undefined, so nothing is known of a run that faults.

Three kinds of triple are used.  `Returns P m Q` is total: from every state of `P`
the program returns, in a state of `Q`.  `Yields P m Q` is partial: whatever the
program returns from a state of `P` satisfies `Q`.  `Faults P m`: from every state of
`P` the program faults.
-/

namespace SaneBackends.FaultState

abbrev FaultM (σ ε α : Type) := StateT σ (Except ε) α

variable {σ ε α β : Type}

/-! ### Running a sequence -/

@[simp] theorem pure_run (a : α) (s : σ) :
    (pure a : FaultM σ ε α) s = .ok (a, s) := rfl

@[simp] theorem get_run (s : σ) : (get : FaultM σ ε σ) s = .ok (s, s) := rfl

@[simp] theorem set_run (t s : σ) : (set t : FaultM σ ε PUnit) s = .ok (⟨⟩, t) := rfl

@[simp] theorem modify_run (f : σ → σ) (s : σ) :
    (modify f : FaultM σ ε PUnit) s = .ok (⟨⟩, f s) := rfl

@[simp] theorem throw_run (e : ε) (s : σ) : (throw e : FaultM σ ε α) s = .error e := rfl

theorem ok_bind (a : α) (f : α → Except ε β) : ((.ok a : Except ε α) >>= f) = f a := rfl

theorem error_bind (e : ε) (f : α → Except ε β) :
    ((.error e : Except ε α) >>= f) = .error e := rfl

/-- A sequence of two computations that may fail. -/
theorem bind_eq_ok {x : Except ε α} {f : α → Except ε β} {b : β} :
    (x >>= f) = .ok b ↔ ∃ a, x = .ok a ∧ f a = .ok b := by
  cases x with
  | error e =>
    constructor
    · exact fun h => nomatch h
    · rintro ⟨_, h, _⟩
      exact nomatch h
  | ok a =>
    constructor
    · exact fun h => ⟨a, rfl, h⟩
    · rintro ⟨_, ha, h⟩
      cases ha
      exact h

theorem bind_run (m : FaultM σ ε α) (f : α → FaultM σ ε β) (s : σ) :
    (m >>= f) s =
      match m s with
      | .ok (a, s') => f a s'
      | .error e => .error e := by
  change (m s >>= fun r => f r.1 r.2) = _
  cases m s <;> rfl

/-- Running past a first part that returns. -/
theorem bind_of_ok {m : FaultM σ ε α} {f : α → FaultM σ ε β} {s s' : σ} {a : α}
    (h : m s = .ok (a, s')) : (m >>= f) s = f a s' := by
  rw [bind_run, h]

/-- A sequence returns exactly when both of its parts do. -/
theorem bind_ok {m : FaultM σ ε α} {f : α → FaultM σ ε β} {s s'' : σ} {b : β} :
    (m >>= f) s = .ok (b, s'') ↔
      ∃ a s', m s = .ok (a, s') ∧ f a s' = .ok (b, s'') := by
  rw [bind_run]
  constructor
  · intro h
    cases hm : m s with
    | error e => rw [hm] at h; cases h
    | ok r => exact ⟨r.1, r.2, rfl, by rw [hm] at h; exact h⟩
  · rintro ⟨a, s', hm, hf⟩
    rw [hm]
    exact hf

/-! ### Total triples -/

/-- From every state of `P` the program returns, and then `Q` holds. -/
def Returns (P : σ → Prop) (m : FaultM σ ε α) (Q : α → σ → Prop) : Prop :=
  ∀ s, P s → ∃ a s', m s = .ok (a, s') ∧ Q a s'

theorem Returns.pure {P : σ → Prop} {Q : α → σ → Prop} {a : α} (h : ∀ s, P s → Q a s) :
    Returns P (Pure.pure a : FaultM σ ε α) Q :=
  fun s hs => ⟨a, s, rfl, h s hs⟩

theorem Returns.bind {P : σ → Prop} {Q : α → σ → Prop} {R : β → σ → Prop}
    {m : FaultM σ ε α} {f : α → FaultM σ ε β}
    (hm : Returns P m Q) (hf : ∀ a, Returns (Q a) (f a) R) : Returns P (m >>= f) R := by
  intro s hs
  obtain ⟨a, s', hrun, hQ⟩ := hm s hs
  obtain ⟨b, s'', hrun', hR⟩ := hf a s' hQ
  exact ⟨b, s'', by rw [bind_of_ok hrun, hrun'], hR⟩

theorem Returns.conseq {P P' : σ → Prop} {Q Q' : α → σ → Prop} {m : FaultM σ ε α}
    (hm : Returns P m Q) (hP : ∀ s, P' s → P s) (hQ : ∀ a s, Q a s → Q' a s) :
    Returns P' m Q' := by
  intro s hs
  obtain ⟨a, s', hrun, h⟩ := hm s (hP s hs)
  exact ⟨a, s', hrun, hQ a s' h⟩

/-! ### Partial triples -/

/-- Whatever the program returns from a state of `P` satisfies `Q`. -/
def Yields (P : σ → Prop) (m : FaultM σ ε α) (Q : α → σ → Prop) : Prop :=
  ∀ s a s', P s → m s = .ok (a, s') → Q a s'

theorem Yields.pure {P : σ → Prop} {Q : α → σ → Prop} {a : α} (h : ∀ s, P s → Q a s) :
    Yields P (Pure.pure a : FaultM σ ε α) Q := by
  intro s b s' hs hrun
  cases hrun
  exact h s hs

theorem Yields.bind {P : σ → Prop} {Q : α → σ → Prop} {R : β → σ → Prop}
    {m : FaultM σ ε α} {f : α → FaultM σ ε β}
    (hm : Yields P m Q) (hf : ∀ a, Yields (Q a) (f a) R) : Yields P (m >>= f) R := by
  intro s b s'' hs hrun
  obtain ⟨a, s', ha, hb⟩ := (bind_ok).mp hrun
  exact hf a s' b s'' (hm s a s' hs ha) hb

theorem Yields.conseq {P P' : σ → Prop} {Q Q' : α → σ → Prop} {m : FaultM σ ε α}
    (hm : Yields P m Q) (hP : ∀ s, P' s → P s) (hQ : ∀ a s, Q a s → Q' a s) :
    Yields P' m Q' :=
  fun s a s' hs hrun => hQ a s' (hm s a s' (hP s hs) hrun)

/-! ### Faults -/

/-- From every state of `P` the program faults. -/
def Faults (P : σ → Prop) (m : FaultM σ ε α) : Prop := ∀ s, P s → ∃ e, m s = .error e

theorem Faults.bind {P : σ → Prop} {m : FaultM σ ε α} (hm : Faults P m)
    (f : α → FaultM σ ε β) : Faults P (m >>= f) := by
  intro s hs
  obtain ⟨e, hrun⟩ := hm s hs
  exact ⟨e, by rw [bind_run, hrun]⟩

theorem Returns.faults {P : σ → Prop} {Q : α → σ → Prop} {m : FaultM σ ε α}
    {f : α → FaultM σ ε β} (hm : Returns P m Q) (hf : ∀ a, Faults (Q a) (f a)) :
    Faults P (m >>= f) := by
  intro s hs
  obtain ⟨a, s', hrun, hQ⟩ := hm s hs
  obtain ⟨e, hrun'⟩ := hf a s' hQ
  exact ⟨e, by rw [bind_of_ok hrun, hrun']⟩

end SaneBackends.FaultState
