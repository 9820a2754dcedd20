import Mathlib.Logic.Basic

/-!
# Programs that may return early

A program runs on a state and either comes to its end or returns early with an exit
value; the state it has reached stays.  `Ensures P m Q R` says that from a state of `P` the
program `m` either ends in a state of `Q` or returns early in a state of `R`.
-/

namespace SaneBackends.EarlyExit

variable {σ ε α β : Type}

/-- A program with early return over the state `σ`. -/
abbrev Prog (σ ε α : Type) := ExceptT ε (StateM σ) α

/-- The outcome of a program and the state it leaves. -/
def Prog.exec (m : Prog σ ε α) (s : σ) : Except ε α × σ := m s

theorem exec_get (s : σ) : (get : Prog σ ε σ).exec s = (.ok s, s) := rfl

theorem exec_bind (m : Prog σ ε α) (f : α → Prog σ ε β) (s : σ) :
    (m >>= f).exec s = match m.exec s with
      | (.ok a, s') => (f a).exec s'
      | (.error e, s') => (.error e, s') := by
  simp only [Prog.exec, bind, ExceptT.bind, ExceptT.mk, StateT.bind]
  cases m s with
  | mk r s' => cases r <;> rfl

/-! ### Triples -/

def Ensures (P : σ → Prop) (m : Prog σ ε α) (Q : α → σ → Prop) (R : ε → σ → Prop) : Prop :=
  ∀ s, P s → match m.exec s with
    | (.ok a, s') => Q a s'
    | (.error e, s') => R e s'

variable {P P' : σ → Prop} {Q Q' : α → σ → Prop} {R R' : ε → σ → Prop}

theorem Ensures.pure {a : α} (h : ∀ s, P s → Q a s) : Ensures P (Pure.pure a : Prog σ ε α) Q R :=
  fun s hs => h s hs

theorem Ensures.throw {e : ε} (h : ∀ s, P s → R e s) :
    Ensures P (MonadExcept.throw e : Prog σ ε α) Q R :=
  fun s hs => h s hs

theorem Ensures.update {f : σ → σ} {Q : Unit → σ → Prop} (h : ∀ s, P s → Q () (f s)) :
    Ensures P (modify f : Prog σ ε Unit) Q R :=
  fun s hs => h s hs

theorem Ensures.conseq {m : Prog σ ε α} (hm : Ensures P m Q R) (hP : ∀ s, P' s → P s)
    (hQ : ∀ a s, Q a s → Q' a s) (hR : ∀ e s, R e s → R' e s) : Ensures P' m Q' R' := by
  intro s hs
  have h := hm s (hP s hs)
  cases hrun : m.exec s with
  | mk r s' =>
    rw [hrun] at h
    cases r with
    | ok a => exact hQ a s' h
    | error e => exact hR e s' h

theorem Ensures.bind {m : Prog σ ε α} {f : α → Prog σ ε β} {S : β → σ → Prop}
    (hm : Ensures P m Q R) (hf : ∀ a, Ensures (Q a) (f a) S R) : Ensures P (m >>= f) S R := by
  intro s hs
  have h := hm s hs
  rw [exec_bind]
  cases hrun : m.exec s with
  | mk r s' =>
    rw [hrun] at h
    cases r with
    | ok a => exact hf a s' h
    | error e => exact h

/-- Reading the state. -/
theorem Ensures.get_bind {f : σ → Prog σ ε β} {S : β → σ → Prop}
    (hf : ∀ s, P s → Ensures (fun t => t = s ∧ P t) (f s) S R) :
    Ensures P (get >>= f) S R := by
  intro s hs
  rw [exec_bind, exec_get]
  exact hf s hs s ⟨rfl, hs⟩

/-- Reading the state for a value of which nothing has to be known. -/
theorem Ensures.peek {f : σ → Prog σ ε β} {S : β → σ → Prop} (hf : ∀ s, Ensures P (f s) S R) :
    Ensures P (get >>= f) S R :=
  .get_bind fun s _ => (hf s).conseq (fun _ hs => hs.2) (fun _ _ hs => hs) fun _ _ hs => hs

theorem Ensures.ite {c : Prop} [Decidable c] {m m' : Prog σ ε α} (hm : c → Ensures P m Q R)
    (hm' : ¬ c → Ensures P m' Q R) : Ensures P (if c then m else m') Q R := by
  by_cases h : c
  · rw [if_pos h]
    exact hm h
  · rw [if_neg h]
    exact hm' h

end SaneBackends.EarlyExit
