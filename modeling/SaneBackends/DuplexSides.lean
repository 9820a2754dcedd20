import Mathlib.Logic.Basic

/-!
# The two sides of a sheet

The document feeders of the `fujitsu` and `canon_dr` backends read one side of a sheet or
both; what a backend keeps for a side is a cell of an array of two.
-/

namespace SaneBackends.DuplexSides

inductive Source | flatbed | adfFront | adfBack | adfDuplex
  deriving DecidableEq

inductive Side | front | back
  deriving DecidableEq

/-- `!side` -/
def Side.other : Side → Side
  | .front => .back
  | .back => .front

/-- An array with one cell for each side. -/
structure Sides (α : Type) where
  front : α
  back : α
  deriving DecidableEq

variable {α : Type}

def Sides.get (a : Sides α) : Side → α
  | .front => a.front
  | .back => a.back

def Sides.set (a : Sides α) (side : Side) (x : α) : Sides α :=
  match side with
  | .front => { a with front := x }
  | .back => { a with back := x }

@[simp] theorem Sides.get_set_self (a : Sides α) (side : Side) (x : α) :
    (a.set side x).get side = x := by
  cases side <;> rfl

@[simp] theorem Sides.get_set_of_ne (a : Sides α) {side side' : Side} (h : side' ≠ side) (x : α) :
    (a.set side x).get side' = a.get side' := by
  cases side <;> cases side' <;> first | rfl | exact absurd rfl h

end SaneBackends.DuplexSides
