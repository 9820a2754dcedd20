import SaneBackends.WireState
import SaneBackends.Overwrite
import Mathlib.Tactic.SplitIfs

/-!
# Cells of a block

Reading and storing one cell of a block of memory; a cell that does not exist is a fault.
-/

namespace SaneBackends

variable {α : Type} {mem : List α} {i : Nat} {x : α}

/-- `mem[i]`. -/
def cellAt (mem : List α) (i : Nat) : Except Fault α :=
  match mem[i]? with
  | some x => .ok x
  | none => .error .outOfBounds

/-- `mem[i] = x`. -/
def setCell (mem : List α) (i : Nat) (x : α) : Except Fault (List α) :=
  if i < mem.length then .ok (mem.set i x) else .error .outOfBounds

theorem cellAt_eq_ok : cellAt mem i = .ok x ↔ mem[i]? = some x := by
  unfold cellAt
  cases mem[i]? with
  | none => simp
  | some y => simp

theorem cellAt_of_ge (h : mem.length ≤ i) : cellAt mem i = .error .outOfBounds := by
  rw [cellAt, List.getElem?_eq_none h]

theorem setCell_of_lt (h : i < mem.length) : setCell mem i x = .ok (mem.set i x) := if_pos h

theorem length_setCell {mem' : List α} (h : setCell mem i x = .ok mem') :
    mem'.length = mem.length := by
  unfold setCell at h
  split_ifs at h
  cases h
  exact List.length_set

theorem cellAt_of_lt (h : i < mem.length) : cellAt mem i = .ok mem[i] :=
  (cellAt_eq_ok).mpr (List.getElem?_eq_getElem h)

/-- The value of an `int` expression; an overflow is undefined. -/
def intValue (n : Int) : Except Fault Int :=
  if -2 ^ 31 ≤ n ∧ n < 2 ^ 31 then .ok n else .error .outOfBounds

/-- A natural number that is an `int`. -/
theorem intValue_natCast {n : Nat} :
    intValue n = if n < 2 ^ 31 then .ok (n : Int) else .error .outOfBounds := by
  unfold intValue
  split_ifs <;> first | rfl | omega

theorem intValue_eq_ok {n m : Int} :
    intValue n = .ok m ↔ (-2 ^ 31 ≤ n ∧ n < 2 ^ 31) ∧ n = m := by
  unfold intValue
  split_ifs with h
  · rw [Except.ok.injEq]
    exact (and_iff_right h).symm
  · exact ⟨fun heq => absurd heq (by simp), fun heq => absurd heq.1 h⟩

/-- An index that is computed as an `int`. -/
def intIndex (n : Nat) : Except Fault Nat := Int.toNat <$> intValue n

theorem intIndex_eq_ok {n m : Nat} : intIndex n = .ok m ↔ n < 2 ^ 31 ∧ n = m := by
  rw [intIndex, intValue_natCast]
  split_ifs with h
  · show Except.ok (n : Int).toNat = Except.ok m ↔ _
    rw [Except.ok.injEq, Int.toNat_natCast]
    exact (and_iff_right h).symm
  · exact ⟨fun heq => absurd heq (by simp [Functor.map, Except.map]), fun heq => absurd heq.1 h⟩

theorem intIndex_of_lt {n : Nat} (h : n < 2 ^ 31) : intIndex n = .ok n :=
  intIndex_eq_ok.mpr ⟨h, rfl⟩

/-! ### Copying -/

/-- `memcpy` of the `n` cells from index `i` on into a new block. -/
def loadCells (mem : List α) (i n : Nat) : Except Fault (List α) :=
  if i + n ≤ mem.length then .ok (Overwrite.stretch mem i n) else .error .outOfBounds

/-- `memcpy` of the block `xs` to the cells from index `i` on. -/
def storeCells (mem : List α) (i : Nat) (xs : List α) : Except Fault (List α) :=
  if i + xs.length ≤ mem.length then .ok (Overwrite.overwrite mem i xs) else .error .outOfBounds

end SaneBackends
