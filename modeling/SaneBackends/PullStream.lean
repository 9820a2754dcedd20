import SaneBackends.LabelledRun
import Mathlib.Data.List.Infix

/-!
# Sources that are asked for data

A source says how much remains and gives, when it is asked for `n` elements, at most
`n` of them.  `Delivers` says that what it gives is a list, piece by piece: `At s k` is
the invariant of the states in which `k` elements have been given, and the requests end
at places where they may end.  `Answers` says that nothing is missing from a piece when
the source is prompt.
-/

namespace SaneBackends.PullStream

open LabelledRun

variable {σ τ α : Type*}

structure PullSource (σ τ α : Type*) where
  remaining : σ → Int
  get : σ → Nat → Option (τ × List α × σ)

/-- From a state in which `k` elements of `w` have been given, at most `n` more have been
    added to `out`. -/
def Gives (At : σ → Nat → Prop) (w : List α) (n k : Nat) (out out' : List α) (s' : σ) : Prop :=
  ∃ xs, out' = out ++ xs ∧ xs.length ≤ n ∧ xs <+: w.drop k ∧ At s' (k + xs.length)

/-- The source gives the elements of `w` one after the other, and shows that there are
    more as long as there are. -/
structure Delivers (S : PullSource σ τ α) (ok : τ) (w : List α) (slack : Nat) (fit : Nat → Prop)
    (At : σ → Nat → Prop) : Prop where
  le : ∀ {s k}, At s k → k ≤ w.length
  get : ∀ {s k n xs s'}, At s k → fit (k + n) → S.get s n = some (ok, xs, s') →
    Gives At w n k [] xs s'
  remaining_pos : ∀ {s k}, At s k → k < w.length → 0 < S.remaining s
  remaining_nonneg : ∀ {s k}, At s k → 0 < k → 0 ≤ S.remaining s
  remaining_le : ∀ {s k}, At s k → S.remaining s + k ≤ w.length + slack

/-- The source never says that less remains than it will give. -/
def Counts (S : PullSource σ τ α) (w : List α) (At : σ → Nat → Prop) : Prop :=
  ∀ {s k}, At s k → (w.length : Int) ≤ k + S.remaining s

/-- As long as it is prompt, the source gives all that it is asked for, and stays so. -/
def Answers (S : PullSource σ τ α) (ok : τ) (w : List α) (fit : Nat → Prop)
    (At : σ → Nat → Prop) (prompt : σ → Prop) : Prop :=
  ∀ {s k n}, At s k → prompt s → 0 < n → k + n ≤ w.length → fit (k + n) →
    ∃ s', S.get s n = some (ok, (w.drop k).take n, s') ∧ prompt s'

/-- Asking a source again and again, and putting together what it gives. -/
abbrev Gets (S : PullSource σ τ α) (ok : τ) (s₀ : σ) : List Nat → σ × List α → Prop :=
  Run (fun s n s' => ∃ xs, S.get s.1 n = some (ok, xs, s'.1) ∧ s'.2 = s.2 ++ xs) (s₀, [])

/-- The same with requests that end where they may end. -/
abbrev FittingGets (S : PullSource σ τ α) (ok : τ) (fit : Nat → Prop) (s₀ : σ) :
    List Nat → σ × List α → Prop :=
  Run (fun s n s' => fit (s.2.length + n) ∧
    ∃ xs, S.get s.1 n = some (ok, xs, s'.1) ∧ s'.2 = s.2 ++ xs) (s₀, [])

variable {S : PullSource σ τ α} {ok : τ} {w : List α} {slack : Nat} {fit : Nat → Prop}
  {At : σ → Nat → Prop} {prompt : σ → Prop} {s₀ s : σ} {ns : List Nat} {out : List α}

theorem prefix_drop {xs ys : List α} {k : Nat} (hxs : xs <+: w.drop k) :
    ys <+: w.drop (k + xs.length) ↔ xs ++ ys <+: w.drop k := by
  obtain ⟨rest, hrest⟩ := hxs
  rw [← List.drop_drop, ← hrest, List.drop_left, List.prefix_append_right_inj]

/-- The elements that come next, in two pieces. -/
theorem append_take_drop {xs : List α} {n k : Nat} (hxs : xs <+: w.drop k) (hlen : xs.length ≤ n) :
    xs ++ (w.drop (k + xs.length)).take (n - xs.length) = (w.drop k).take n := by
  obtain ⟨rest, hrest⟩ := hxs
  rw [← List.drop_drop, ← hrest, List.drop_left, List.take_append, List.take_of_length_le hlen]

theorem length_take_drop {n k : Nat} (h : k + n ≤ w.length) : ((w.drop k).take n).length = n := by
  rw [List.length_take, List.length_drop]
  omega

theorem Gives.nil {n k : Nat} (h : At s k) : Gives At w n k out out s :=
  ⟨[], (List.append_nil _).symm, Nat.zero_le _, List.nil_prefix, h⟩

/-- A loop gives what one turn of it does, and then what the others do. -/
theorem Gives.step {xs out' : List α} {n k : Nat} (hlen : xs.length ≤ n) (hxs : xs <+: w.drop k)
    (h : Gives At w (n - xs.length) (k + xs.length) (out ++ xs) out' s) :
    Gives At w n k out out' s := by
  obtain ⟨ys, rfl, hys, hfront, hat⟩ := h
  refine ⟨xs ++ ys, List.append_assoc .., ?_, (prefix_drop hxs).mp hfront, ?_⟩
  · rw [List.length_append]
    omega
  · rwa [List.length_append, ← Nat.add_assoc]

theorem Gives.piece {xs : List α} {n k : Nat} (h : Gives At w n k [] xs s) :
    xs.length ≤ n ∧ xs <+: w.drop k ∧ At s (k + xs.length) := by
  obtain ⟨ys, rfl, hrest⟩ := h
  exact hrest

/-- What a source keeps whatever it is asked for is added to its invariant. -/
theorem Delivers.and {I : σ → Prop} (h : Delivers S ok w slack fit At)
    (hkeeps : ∀ {s n xs s'}, I s → S.get s n = some (ok, xs, s') → I s') :
    Delivers S ok w slack fit (fun s k => At s k ∧ I s) where
  le hs := h.le hs.1
  get {s k n xs s'} hs hfit hget := by
    obtain ⟨ys, hout, hlen, hfront, hat⟩ := h.get hs.1 hfit hget
    exact ⟨ys, hout, hlen, hfront, hat, hkeeps hs.2 hget⟩
  remaining_pos hs := h.remaining_pos hs.1
  remaining_nonneg hs := h.remaining_nonneg hs.1
  remaining_le hs := h.remaining_le hs.1

/-! ### Runs -/

/-- What has been given is a front part of the list, in each state that is reached. -/
theorem at_of_gets
    (hget : ∀ {s k n xs s'}, At s k → fit (k + n) → S.get s n = some (ok, xs, s') →
      Gives At w n k [] xs s')
    (h₀ : At s₀ 0) (hrun : FittingGets S ok fit s₀ ns (s, out)) : out <+: w ∧ At s out.length := by
  have hinv := hrun.invariant (I := fun s => s.2 <+: w ∧ At s.1 s.2.length)
  refine hinv ⟨List.nil_prefix, h₀⟩ ?_
  rintro ⟨s, out⟩ n ⟨s', out'⟩ ⟨hfront, hat⟩ ⟨hfit, xs, hgot, rfl⟩
  obtain ⟨-, hxs, hat'⟩ := (hget hat hfit hgot).piece
  constructor
  · obtain ⟨rest, rfl⟩ := hfront
    rw [List.drop_left] at hxs
    exact (List.prefix_append_right_inj _).mpr hxs
  · rw [List.length_append]
    exact hat'

theorem gets_fitting (h : Gets S ok s₀ ns (s, out)) (hfit : ∀ e, fit e) :
    FittingGets S ok fit s₀ ns (s, out) :=
  h.mono fun _ _ _ hstep => ⟨hfit _, hstep⟩

/-- The source says that more remains until the whole list has been given. -/
theorem Delivers.complete (h : Delivers S ok w slack fit At) (h₀ : At s₀ 0)
    (hrun : FittingGets S ok fit s₀ ns (s, out)) :
    out <+: w ∧ At s out.length ∧ (out ≠ w → 0 < S.remaining s) := by
  obtain ⟨hfront, hat⟩ := at_of_gets h.get h₀ hrun
  refine ⟨hfront, hat, fun hne => h.remaining_pos hat ?_⟩
  by_contra hall
  exact hne (hfront.eq_of_length_le (Nat.le_of_not_lt hall))

/-- One more piece, for a source that is to be run. -/
def PullSource.collect [DecidableEq τ] (S : PullSource σ τ α) (ok : τ) (s : σ × List α) (n : Nat) :
    Option (σ × List α) :=
  match S.get s.1 n with
  | some (answer, xs, s') => if answer = ok then some (s', s.2 ++ xs) else none
  | none => none

theorem gets_of_collect [DecidableEq τ] {t : σ × List α}
    (hall : runAll (S.collect ok) ns (s₀, []) = some t) : Gets S ok s₀ ns t := by
  refine Run.nil.runAll ?_ hall
  intro s n s' hstep
  unfold PullSource.collect at hstep
  split at hstep
  · rename_i answer xs u hget
    split at hstep
    · rename_i hok
      subst hok
      cases hstep
      exact ⟨xs, hget, rfl⟩
    · cases hstep
  · cases hstep

end SaneBackends.PullStream
