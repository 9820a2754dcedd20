import SaneBackends.FaultState
import Mathlib.Data.Set.Basic

/-!
# Loops over a counter

`turns f n` is `for (i = 0; i < n; i++)` around a body that may fault.  A loop nest that
works off the points of an index set, one after the other, without undoing what it has done,
has in the end done all of them: `Completes inv good m A` says this of the points of `A`.
-/

namespace SaneBackends.CountLoops

open FaultState

variable {σ ε ι : Type}

/-- The first `n` turns of a loop. -/
def turns (f : Nat → σ → Except ε σ) : Nat → σ → Except ε σ
  | 0, s => .ok s
  | n + 1, s => do
    let s ← turns f n s
    f n s

theorem turns_succ (f : Nat → σ → Except ε σ) (n : Nat) (s : σ) :
    turns f (n + 1) s = turns f n s >>= f n := rfl

variable {f : Nat → σ → Except ε σ} {n : Nat}

/-- Every turn is taken and the invariant holds behind the last one. -/
theorem turns_ok {I : Nat → σ → Prop} {s : σ} (h : I 0 s)
    (hstep : ∀ i < n, ∀ s, I i s → ∃ s', f i s = .ok s' ∧ I (i + 1) s') :
    ∃ s', turns f n s = .ok s' ∧ I n s' := by
  induction n with
  | zero => exact ⟨s, rfl, h⟩
  | succ n ih =>
    obtain ⟨t, hrun, ht⟩ := ih fun i hi => hstep i (Nat.lt_succ_of_lt hi)
    obtain ⟨s', hlast, hs'⟩ := hstep n (Nat.lt_succ_self n) t ht
    refine ⟨s', ?_, hs'⟩
    rw [turns_succ, hrun]
    exact hlast

/-- A loop that does not fault takes every turn. -/
theorem turns_each {s s' : σ} (hrun : turns f n s = .ok s') {i : Nat} (hi : i < n) :
    ∃ t t', f i t = .ok t' := by
  induction n generalizing s' with
  | zero => exact absurd hi (Nat.not_lt_zero i)
  | succ n ih =>
    obtain ⟨t, ht, hlast⟩ := bind_eq_ok.mp (turns_succ f n s ▸ hrun)
    rcases Nat.lt_succ_iff_lt_or_eq.mp hi with hlt | rfl
    · exact ih ht hlt
    · exact ⟨t, s', hlast⟩

theorem turns_congr {g : Nat → σ → Except ε σ} {s : σ} (h : ∀ i < n, ∀ s, f i s = g i s) :
    turns f n s = turns g n s := by
  induction n with
  | zero => rfl
  | succ n ih =>
    rw [turns_succ, turns_succ, ih fun i hi => h i (Nat.lt_succ_of_lt hi)]
    congr 1
    funext t
    exact h n (Nat.lt_succ_self n) t

/-- A loop whose first turn faults. -/
theorem turns_error {e : ε} {s : σ} (hn : 0 < n) (h : f 0 s = .error e) :
    turns f n s = .error e := by
  induction n with
  | zero => exact absurd hn (Nat.lt_irrefl 0)
  | succ n ih =>
    rw [turns_succ]
    rcases Nat.eq_zero_or_pos n with rfl | hpos
    · exact h
    · rw [ih hpos]
      rfl

/-- Two loops whose turns correspond. -/
theorem turns_map {τ : Type} {g : Nat → τ → Except ε τ} {φ : σ → τ} {s : σ}
    (h : ∀ i < n, ∀ s, g i (φ s) = (f i s).map φ) :
    turns g n (φ s) = (turns f n s).map φ := by
  induction n with
  | zero => rfl
  | succ n ih =>
    rw [turns_succ, turns_succ, ih fun i hi => h i (Nat.lt_succ_of_lt hi)]
    cases turns f n s with
    | error e => rfl
    | ok t => exact h n (Nat.lt_succ_self n) t

/-- The results of a loop that makes one of each index. -/
theorem mapM_ok {α : Type} {g : Nat → Except ε α} {v : Nat → α} {l : List Nat}
    (h : ∀ i ∈ l, g i = .ok (v i)) : l.mapM g = .ok (l.map v) := by
  induction l with
  | nil => rfl
  | cons i l ih =>
    rw [List.mapM_cons, h i List.mem_cons_self, ih fun j hj => h j (List.mem_cons_of_mem i hj)]
    rfl

/-- If there are results, there is one of each index. -/
theorem mapM_each {α : Type} {g : Nat → Except ε α} {l : List Nat} {r : List α}
    (hrun : l.mapM g = .ok r) {i : Nat} (hi : i ∈ l) : ∃ v, g i = .ok v := by
  induction l generalizing r with
  | nil => exact absurd hi List.not_mem_nil
  | cons j l ih =>
    rw [List.mapM_cons] at hrun
    obtain ⟨v, hv, hrest⟩ := bind_eq_ok.mp hrun
    obtain ⟨r', hr', _⟩ := bind_eq_ok.mp hrest
    rcases List.mem_cons.mp hi with rfl | hi
    · exact ⟨v, hv⟩
    · exact ih hr' hi

/-! ### Loops with another step -/

/-- `for (; i < bound; i += step)`, as long as there is fuel. -/
def stepLoop (f : Nat → σ → Except ε σ) (e : ε) (step : Nat) (bound : Int) :
    Nat → Nat → σ → Except ε σ
  | 0, _, _ => .error e
  | fuel + 1, i, s =>
    if (i : Int) < bound then do
      let s ← f i s
      stepLoop f e step bound fuel (i + step) s
    else .ok s

/-- It is a loop over a counter if it is known how many turns are taken. -/
theorem stepLoop_eq {e : ε} {step i m fuel : Nat} {bound : Int}
    (hin : ∀ n < m, ((i + n * step : Nat) : Int) < bound)
    (hend : bound ≤ ((i + m * step : Nat) : Int)) (hfuel : m < fuel) (s : σ) :
    stepLoop f e step bound fuel i s = turns (fun n => f (i + n * step)) m s := by
  -- the loop is entered at its first turn, `turns` is left at its last one
  have hgo : ∀ d n fuel (s : σ), n + d = m → d < fuel →
      turns (fun n => f (i + n * step)) n s >>= stepLoop f e step bound fuel (i + n * step)
        = turns (fun n => f (i + n * step)) m s := by
    intro d
    induction d with
    | zero =>
      intro n fuel s hn hfuel
      obtain ⟨fuel, rfl⟩ : ∃ k, fuel = k + 1 := ⟨fuel - 1, by omega⟩
      obtain rfl : n = m := hn
      cases turns (fun n => f (i + n * step)) n s with
      | error e => rfl
      | ok t => exact if_neg (Int.not_lt.mpr hend)
    | succ d ih =>
      intro n fuel s hn hfuel
      obtain ⟨fuel, rfl⟩ : ∃ k, fuel = k + 1 := ⟨fuel - 1, by omega⟩
      rw [← ih (n + 1) fuel s (by omega) (by omega), turns_succ]
      have hnext : i + (n + 1) * step = i + n * step + step := by
        rw [Nat.succ_mul, Nat.add_assoc]
      cases turns (fun n => f (i + n * step)) n s with
      | error e => rfl
      | ok t =>
        rw [hnext]
        exact if_pos (hin n (by omega))
  have h := hgo m 0 fuel s (Nat.zero_add m) hfuel
  rwa [Nat.zero_mul, Nat.add_zero] at h

/-! ### Working off an index set -/

variable {inv : σ → Prop} {good : ι → σ → Prop}

/-- `m` makes the points of `A` good and leaves the good points good. -/
def Completes (inv : σ → Prop) (good : ι → σ → Prop) (m : σ → Except ε σ) (A : Set ι) : Prop :=
  ∀ (D : Set ι) (s : σ), inv s → (∀ p ∈ D, good p s) →
    ∃ s', m s = .ok s' ∧ inv s' ∧ ∀ p ∈ D ∪ A, good p s'

/-- One point is done and no other one is spoiled. -/
theorem Completes.point {m : σ → Except ε σ} {p : ι}
    (h : ∀ s, inv s → ∃ s', m s = .ok s' ∧ inv s' ∧ good p s' ∧
      ∀ q, q ≠ p → good q s → good q s') : Completes inv good m {p} := by
  intro D s hs hD
  obtain ⟨s', hrun, hs', hp, hkeep⟩ := h s hs
  refine ⟨s', hrun, hs', ?_⟩
  intro q hq
  by_cases hqp : q = p
  · exact hqp ▸ hp
  · rcases hq with hq | hq
    · exact hkeep q hqp (hD q hq)
    · exact absurd hq hqp

/-- A loop does the points of all its turns. -/
theorem Completes.turns {A : Nat → Set ι} (h : ∀ i < n, Completes inv good (f i) (A i)) :
    Completes inv good (turns f n) {p | ∃ i < n, p ∈ A i} := by
  intro D s hs hD
  have hinit : inv s ∧ ∀ p ∈ D ∪ {p | ∃ i < 0, p ∈ A i}, good p s := by
    refine ⟨hs, ?_⟩
    rintro p (hp | ⟨i, hi, _⟩)
    · exact hD p hp
    · exact absurd hi (Nat.not_lt_zero i)
  obtain ⟨s', hrun, hs', hgood⟩ := turns_ok
    (I := fun i s => inv s ∧ ∀ p ∈ D ∪ {p | ∃ i' < i, p ∈ A i'}, good p s) hinit
    (by
      rintro i hi s ⟨hs, hdone⟩
      obtain ⟨s', hrun, hs', hgood⟩ := h i hi _ s hs hdone
      refine ⟨s', hrun, hs', ?_⟩
      rintro p (hp | ⟨i', hi', hp⟩)
      · exact hgood p (Or.inl (Or.inl hp))
      · rcases Nat.lt_succ_iff_lt_or_eq.mp hi' with hlt | rfl
        · exact hgood p (Or.inl (Or.inr ⟨i', hlt, hp⟩))
        · exact hgood p (Or.inr hp))
  exact ⟨s', hrun, hs', hgood⟩

theorem Completes.mono {m : σ → Except ε σ} {A B : Set ι} (h : Completes inv good m A)
    (hB : B ⊆ A) : Completes inv good m B := by
  intro D s hs hD
  obtain ⟨s', hrun, hs', hgood⟩ := h D s hs hD
  exact ⟨s', hrun, hs', fun p hp => hgood p (hp.imp_right (@hB p))⟩

/-- A program that works off an index set, run on its own. -/
theorem Completes.run {m : σ → Except ε σ} {A : Set ι} {s : σ} (h : Completes inv good m A)
    (hs : inv s) : ∃ s', m s = .ok s' ∧ inv s' ∧ ∀ p ∈ A, good p s' := by
  obtain ⟨s', hrun, hs', hgood⟩ := h ∅ s hs (fun p hp => absurd hp (Set.notMem_empty p))
  exact ⟨s', hrun, hs', fun p hp => hgood p (Or.inr hp)⟩

end SaneBackends.CountLoops
