import SaneBackends.InPlace

/-!
# A buffer that is filled behind and drained in front

A block of cells with two positions: cells are stored at `rx` and taken at `tx`, and both
only grow until the buffer is rewound.  What has been stored and not been taken is pending,
in the order in which it was stored.  Storing behind the last cell of the block is a fault,
and so is taking what is not in the block.
-/

namespace SaneBackends.DrainBuffer

open Overwrite

variable {α : Type*}

structure Buffer (α : Type*) where
  cells : List α
  rx : Nat
  tx : Nat
  deriving DecidableEq

/-- Stores `xs` behind what has been stored. -/
def Buffer.put (b : Buffer α) (xs : List α) : Option (Buffer α) :=
  if b.rx + xs.length ≤ b.cells.length then
    some { b with cells := overwrite b.cells b.rx xs, rx := b.rx + xs.length }
  else none

/-- `block[rx++] = x` -/
def Buffer.push (b : Buffer α) (x : α) : Option (Buffer α) := b.put [x]

/-- Takes `n` cells. -/
def Buffer.fetch (b : Buffer α) (n : Nat) : Option (List α × Buffer α) :=
  if b.tx + n ≤ b.cells.length then some (stretch b.cells b.tx n, { b with tx := b.tx + n })
  else none

def Buffer.rewind (b : Buffer α) : Buffer α := { b with rx := 0, tx := 0 }

/-- What has been stored and not been taken. -/
def Buffer.pending (b : Buffer α) : List α := stretch b.cells b.tx (b.rx - b.tx)

/-- A block of `size` cells in which `xs` is pending. -/
structure Buffer.Holds (b : Buffer α) (size : Nat) (xs : List α) : Prop where
  length_cells : b.cells.length = size
  ordered : b.tx ≤ b.rx
  inside : b.rx ≤ size
  pending : b.pending = xs

variable {b b' : Buffer α} {size n : Nat} {xs ys : List α}

/-- A block from which nothing has been taken. -/
theorem holds_fresh (cells : List α) : (⟨cells, 0, 0⟩ : Buffer α).Holds cells.length [] :=
  ⟨rfl, Nat.le_refl _, Nat.zero_le _, rfl⟩

theorem Buffer.Holds.length (h : b.Holds size xs) : b.tx + xs.length = b.rx := by
  have hordered := h.ordered
  have hinside := h.inside
  have hsize := h.length_cells
  rw [← h.pending, Buffer.pending, length_stretch (by omega)]
  omega

theorem Buffer.Holds.put (h : b.Holds size xs) (hroom : b.rx + ys.length ≤ size) :
    ∃ b', b.put ys = some b' ∧ b'.Holds size (xs ++ ys) ∧ b'.rx = b.rx + ys.length ∧
      b'.tx = b.tx := by
  have hordered := h.ordered
  have hsize := h.length_cells
  have hinside : b.rx ≤ b.cells.length := by omega
  refine ⟨_, if_pos (by omega), ⟨?_, ?_, hroom, ?_⟩, rfl, rfl⟩
  · exact (length_overwrite (by omega)).trans hsize
  · exact Nat.le_add_right_of_le hordered
  · have hsplit : b.rx + ys.length - b.tx = (b.rx - b.tx) + ys.length := by omega
    have hbefore : stretch (overwrite b.cells b.rx ys) b.tx (b.rx - b.tx) = xs :=
      (stretch_overwrite_before (by omega) hinside).trans h.pending
    have hbehind : stretch (overwrite b.cells b.rx ys) b.rx ys.length = ys :=
      stretch_overwrite hinside
    rw [Buffer.pending]
    dsimp only
    rw [hsplit, stretch_add, hbefore, Nat.add_sub_cancel' hordered, hbehind]

theorem Buffer.Holds.fetch (h : b.Holds size xs) (hn : n ≤ xs.length) :
    b.fetch n = some (xs.take n, { b with tx := b.tx + n }) ∧
      ({ b with tx := b.tx + n } : Buffer α).Holds size (xs.drop n) := by
  have hlength := h.length
  have hinside := h.inside
  have hsize := h.length_cells
  have hpending : stretch b.cells b.tx (b.rx - b.tx) = xs := h.pending
  constructor
  · rw [Buffer.fetch, if_pos (by omega), ← hpending, take_stretch (by omega)]
  · refine ⟨hsize, ?_, hinside, ?_⟩
    · change b.tx + n ≤ b.rx
      omega
    · have hrest : b.rx - (b.tx + n) = b.rx - b.tx - n := by omega
      rw [Buffer.pending, ← hpending, drop_stretch, ← hrest]

/-- When nothing is pending the buffer can be rewound. -/
theorem Buffer.Holds.rewind (h : b.Holds size []) : b.rewind.Holds size [] :=
  ⟨h.length_cells, Nat.le_refl _, Nat.zero_le _, rfl⟩

/-! ### Storing piece by piece -/

theorem put_nil (h : b.rx ≤ b.cells.length) : b.put [] = some b := by
  refine (if_pos ?_).trans ?_
  · rwa [List.length_nil, Nat.add_zero]
  · rw [overwrite_nil]
    rfl

theorem put_append :
    b.put (xs ++ ys) = (b.put xs).bind fun b' => b'.put ys := by
  by_cases hxs : b.rx + xs.length ≤ b.cells.length
  · have hput : b.put xs = some { b with
        cells := overwrite b.cells b.rx xs, rx := b.rx + xs.length } := if_pos hxs
    rw [hput, Option.bind_some, Buffer.put, Buffer.put]
    dsimp only
    rw [length_overwrite hxs, List.length_append, ← Nat.add_assoc, InPlace.overwrite_append hxs]
  · have hput : b.put xs = none := if_neg hxs
    rw [hput, Option.bind_none, Buffer.put, if_neg]
    rw [List.length_append]
    omega

theorem rx_le_of_put (h : b.put xs = some b') : b'.rx ≤ b'.cells.length := by
  rw [Buffer.put] at h
  split at h
  · rename_i hroom
    cases h
    exact hroom.trans (Nat.le_of_eq (length_overwrite hroom).symm)
  · exact nomatch h

/-- A loop that stores a piece in every turn stores all pieces. -/
theorem foldlM_put {ι : Type*} {f : Buffer α → ι → Option (Buffer α)} {piece : ι → List α}
    {is : List ι} (hf : ∀ b i, b.rx ≤ b.cells.length → f b i = b.put (piece i))
    (h : b.rx ≤ b.cells.length) : is.foldlM f b = b.put (is.flatMap piece) := by
  induction is generalizing b with
  | nil => exact (put_nil h).symm
  | cons i is ih =>
    rw [List.foldlM_cons, hf b i h, List.flatMap_cons, put_append]
    cases hput : b.put (piece i) with
    | none => rfl
    | some b' => exact ih (rx_le_of_put hput)

theorem foldlM_push (h : b.rx ≤ b.cells.length) : xs.foldlM Buffer.push b = b.put xs := by
  have hall : xs.foldlM Buffer.push b = b.put (xs.flatMap fun x => [x]) :=
    foldlM_put (fun _ _ _ => rfl) h
  rwa [List.flatMap_singleton'] at hall

end SaneBackends.DrainBuffer
