import SaneBackends.Cells
import SaneBackends.FaultState
import Mathlib.Data.List.Range

/-!
# Writing a line from either end

The cells of a line are stored one after the other, from the first to the last or from the last to
the first.  The second way leaves the mirror image of the first.
-/

namespace SaneBackends.LineWalk

open FaultState

variable {α : Type}

/-- `line[i] = x`. -/
def storeAt (line : List α) (i : Int) (x : α) : Except Fault (List α) :=
  if 0 ≤ i then setCell line i.toNat x else .error .outOfBounds

/-- The index where a walk over `n` cells begins. -/
def start (backwards : Bool) (n : Nat) : Int := if backwards then (n : Int) - 1 else 0

/-- What is added to the index behind each cell. -/
def step (backwards : Bool) : Int := if backwards then -1 else 1

/-- `line[i] = x; i += step`. -/
def put (backwards : Bool) (x : α) (s : Int × List α) : Except Fault (Int × List α) := do
  let line ← storeAt s.2 s.1 x
  return (s.1 + step backwards, line)

/-- The line that a walk leaves. -/
def walked (backwards : Bool) (n : Nat) (f : Nat → α) : List α :=
  if backwards then ((List.range n).map f).reverse else (List.range n).map f

/-- The cell that is stored in turn `q`. -/
def place (backwards : Bool) (n q : Nat) : Nat := if backwards then n - 1 - q else q

variable {backwards : Bool} {n p : Nat} {f : Nat → α} {line : List α}

theorem length_walked : (walked backwards n f).length = n := by
  rw [walked]
  split
  · rw [List.length_reverse, List.length_map, List.length_range]
  · rw [List.length_map, List.length_range]

theorem place_lt (hp : p < n) : place backwards n p < n := by
  rw [place]
  split <;> omega

theorem place_inj {q : Nat} (hp : p < n) (hq : q < n) :
    place backwards n p = place backwards n q ↔ p = q := by
  rw [place, place]
  split <;> omega

theorem place_place (hp : p < n) : place backwards n (place backwards n p) = p := by
  cases backwards with
  | false => rfl
  | true =>
    simp only [place, if_true]
    omega

theorem start_add (hp : p < n) : start backwards n + p * step backwards = place backwards n p := by
  cases backwards with
  | false => simp [start, step, place]
  | true =>
    simp only [start, step, place, if_true]
    omega

theorem getElem?_walked (hp : p < n) :
    (walked backwards n f)[place backwards n p]? = some (f p) := by
  cases backwards with
  | false => simp [walked, place, hp]
  | true =>
    have hlen : ((List.range n).map f).length = n := by rw [List.length_map, List.length_range]
    have hback : n - 1 - (n - 1 - p) = p := by omega
    simp only [walked, place, if_true]
    rw [List.getElem?_reverse (by omega), hlen, hback, List.getElem?_map,
      List.getElem?_range hp]
    rfl

theorem map_walked {β : Type} (φ : α → β) :
    (walked backwards n f).map φ = walked backwards n fun p => φ (f p) := by
  rw [walked, walked]
  split
  · rw [List.map_reverse, List.map_map]
    rfl
  · rw [List.map_map]
    rfl

/-- The first `p` turns of the walk have been taken. -/
structure Written (backwards : Bool) (n : Nat) (f : Nat → α) (p : Nat) (s : Int × List α) :
    Prop where
  index : s.1 = start backwards n + p * step backwards
  length : s.2.length = n
  cells : ∀ q < p, s.2[place backwards n q]? = some (f q)

theorem Written.init (h : line.length = n) :
    Written backwards n f 0 (start backwards n, line) where
  index := by simp
  length := h
  cells q hq := absurd hq (Nat.not_lt_zero q)

theorem Written.put {s : Int × List α} (h : Written backwards n f p s) (hp : p < n) :
    ∃ s', put backwards (f p) s = .ok s' ∧ Written backwards n f (p + 1) s' := by
  have hindex : s.1 = (place backwards n p : Int) := h.index.trans (start_add hp)
  have hlt : place backwards n p < s.2.length := by
    rw [h.length]
    exact place_lt hp
  refine ⟨(s.1 + step backwards, s.2.set (place backwards n p) (f p)), ?_, ?_, ?_, ?_⟩
  · rw [LineWalk.put, storeAt, hindex, if_pos (Int.natCast_nonneg _), Int.toNat_natCast,
      setCell_of_lt hlt, ok_bind]
    rfl
  · change s.1 + step backwards = _
    rw [h.index, Nat.cast_succ, Int.add_mul, Int.one_mul, Int.add_assoc]
  · exact List.length_set.trans h.length
  · intro q hq
    change (s.2.set (place backwards n p) (f p))[place backwards n q]? = _
    rcases Nat.lt_succ_iff_lt_or_eq.mp hq with hlt' | rfl
    · have hne : place backwards n p ≠ place backwards n q :=
        fun heq => absurd ((place_inj hp (hlt'.trans hp)).mp heq) hlt'.ne'
      rw [List.getElem?_set_ne hne]
      exact h.cells q hlt'
    · rw [List.getElem?_set_self hlt]

/-- A walk over the whole line. -/
theorem Written.all {s : Int × List α} (h : Written backwards n f n s) :
    s.2 = walked backwards n f := by
  refine List.ext_getElem? fun i => ?_
  rcases Nat.lt_or_ge i n with hi | hi
  · rw [← @place_place backwards n i hi, h.cells _ (place_lt hi), getElem?_walked (place_lt hi)]
  · rw [List.getElem?_eq_none (by rw [h.length]; exact hi),
      List.getElem?_eq_none (by rw [length_walked]; exact hi)]

end SaneBackends.LineWalk
