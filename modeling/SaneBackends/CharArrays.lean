import SaneBackends.ConfigRead

/-!
# Arrays of characters

An array of `n` characters on the stack that holds a C string.  What is stored begins at the first
character; more bytes than the array has leave it.
-/

namespace SaneBackends

open Overwrite SaneiConfig

/-- `char a[n]`. -/
structure CharArray (n : Nat) where
  cells : List SaneByte
  length_cells : cells.length = n

variable {n : Nat}

namespace CharArray

/-- `memset (a, 0, n)` -/
def zero (n : Nat) : CharArray n := ⟨List.replicate n 0, List.length_replicate⟩

def put (a : CharArray n) (bytes : List SaneByte) : Except Fault (CharArray n) :=
  if h : bytes.length ≤ n then
    .ok ⟨overwrite a.cells 0 bytes, (length_overwrite (by rw [a.length_cells]; omega)).trans
      a.length_cells⟩
  else .error .outOfBounds

/-- `a[i] = x` -/
def set (a : CharArray n) (i : Nat) (x : SaneByte) : Except Fault (CharArray n) :=
  if i < n then .ok ⟨a.cells.set i x, List.length_set.trans a.length_cells⟩
  else .error .outOfBounds

/-- `sprintf (a, …)` of a text. -/
def sprintf (a : CharArray n) (text : CStr) : Except Fault (CharArray n) := a.put (text ++ [0])

/-- `strcpy (a, src)` -/
def strcpy (a : CharArray n) (src : List SaneByte) : Except Fault (CharArray n) := do
  let len ← strlen src
  a.put (src.take (len + 1))

/-- `fgets (a, n, stream)`, with the rest of the stream; nothing at its end. -/
def fgets (a : CharArray n) (stream : List SaneByte) :
    Except Fault (Option (CharArray n × List SaneByte)) :=
  if stream = [] then .ok none
  else do
    let line := lineOf (n - 1) stream
    return some (← a.sprintf line, stream.drop line.length)

/-- The string has an end in the array. -/
def Terminated (a : CharArray n) : Prop := 0 ∈ a.cells

instance (a : CharArray n) : Decidable a.Terminated := inferInstanceAs (Decidable (0 ∈ a.cells))

/-- The string that the array holds. -/
def string (a : CharArray n) : Except Fault CStr :=
  if a.Terminated then .ok (cString a.cells) else .error .outOfBounds

variable {a b : CharArray n} {text : CStr} {bytes : List SaneByte}

theorem put_eq (bytes : List SaneByte) (h : bytes.length ≤ n) :
    ∃ b : CharArray n, a.put bytes = .ok b ∧ b.cells = overwrite a.cells 0 bytes :=
  ⟨_, dif_pos h, rfl⟩

theorem put_long (h : n < bytes.length) : a.put bytes = .error .outOfBounds :=
  dif_neg (Nat.not_le.mpr h)

theorem set_eq {i : Nat} (h : i < n) (x : SaneByte) :
    ∃ b : CharArray n, a.set i x = .ok b ∧ b.cells = a.cells.set i x :=
  ⟨_, if_pos h, rfl⟩

theorem terminated_zero (h : 0 < n) : (zero n).Terminated :=
  List.mem_replicate.mpr ⟨Nat.pos_iff_ne_zero.mp h, rfl⟩

/-- A NUL at some place is an end. -/
theorem terminated_set {i : Nat} (h : i < n) (hb : b.cells = a.cells.set i 0) : b.Terminated := by
  rw [Terminated, hb]
  exact List.mem_set (by rw [a.length_cells]; exact h) 0

theorem sprintf_eq (text : CStr) (h : text.length < n) :
    ∃ b : CharArray n, a.sprintf text = .ok b ∧ b.Terminated ∧
      b.cells = text ++ 0 :: a.cells.drop (text.length + 1) := by
  have hlen : (text ++ [0]).length = text.length + 1 := List.length_append
  obtain ⟨b, hput, hcells⟩ := put_eq (a := a) (text ++ [0]) (by rw [hlen]; exact h)
  have hb : b.cells = text ++ 0 :: a.cells.drop (text.length + 1) := by
    rw [hcells, overwrite, List.take_zero, List.nil_append, Nat.zero_add, hlen, List.append_assoc]
    rfl
  refine ⟨b, hput, ?_, hb⟩
  rw [Terminated, hb]
  exact List.mem_append_right _ List.mem_cons_self

theorem sprintf_long (h : n ≤ text.length) : a.sprintf text = .error .outOfBounds := by
  refine put_long ?_
  rw [List.length_append]
  exact Nat.lt_succ_of_le h

theorem string_eq (h : a.Terminated) : a.string = .ok (cString a.cells) := if_pos h

theorem strcpy_of_mem {src : List SaneByte} (h : 0 ∈ src) :
    a.strcpy src = a.sprintf (cString src) := by
  rw [strcpy, strlen_of_mem h, sprintf, ← take_length_cString h]
  rfl

theorem fgets_eq (hn : 0 < n) {stream : List SaneByte} (h : stream ≠ []) :
    ∃ b : CharArray n, b.Terminated ∧
      a.fgets stream = .ok (some (b, stream.drop (lineOf (n - 1) stream).length)) ∧
      b.cells = lineOf (n - 1) stream ++
        0 :: a.cells.drop ((lineOf (n - 1) stream).length + 1) := by
  have hle := length_lineOf_le (n - 1) stream
  obtain ⟨b, hput, hend, hcells⟩ :=
    sprintf_eq (a := a) (lineOf (n - 1) stream) (by omega)
  refine ⟨b, hend, ?_, hcells⟩
  rw [fgets, if_neg h]
  dsimp only
  rw [hput]
  rfl

end CharArray

end SaneBackends
