import SaneBackends.WordBytes

/-!
# The SANE data types

The types of `include/sane/sane.h` as values in memory.  A `SANE_Word` is a
32-bit vector; where the C code compares words as signed integers the model uses
`BitVec.toInt`.  Enumerations that travel over the wire (`SANE_Value_Type`,
`SANE_Constraint_Type`, …) stay words, because a peer may put any word there.

A pointer is `null`, points to a `block` of its own, or is `wild`: an
uninitialised or already freed pointer, which no program may follow.  Blocks are
trees, since every block the wire code allocates has exactly one owner.  The
sizes are those of an LP64 machine.
-/

namespace SaneBackends

abbrev SaneByte := BitVec 8
abbrev SaneWord := BitVec 32

inductive Ptr (α : Type) where
  | null
  | wild
  | block (a : α)
deriving DecidableEq, Repr

/-- A `SANE_String` points to a block of bytes; the string is what precedes the
    first NUL in it. -/
abbrev SaneString := Ptr (List SaneByte)

/-! ### Constants of `sane.h` -/

inductive SaneStatus where
  | good | unsupported | cancelled | deviceBusy | inval | eof | jammed | noDocs
  | coverOpen | ioError | noMem | accessDenied
deriving DecidableEq, Repr

/-- The numeric value of a `SANE_Status`. -/
def SaneStatus.code : SaneStatus → Nat
  | .good => 0
  | .unsupported => 1
  | .cancelled => 2
  | .deviceBusy => 3
  | .inval => 4
  | .eof => 5
  | .jammed => 6
  | .noDocs => 7
  | .coverOpen => 8
  | .ioError => 9
  | .noMem => 10
  | .accessDenied => 11

abbrev SANE_FALSE : SaneWord := 0
abbrev SANE_TRUE : SaneWord := 1

abbrev SANE_TYPE_BOOL : SaneWord := 0
abbrev SANE_TYPE_INT : SaneWord := 1
abbrev SANE_TYPE_FIXED : SaneWord := 2
abbrev SANE_TYPE_STRING : SaneWord := 3
abbrev SANE_TYPE_BUTTON : SaneWord := 4
abbrev SANE_TYPE_GROUP : SaneWord := 5

abbrev SANE_CONSTRAINT_NONE : SaneWord := 0
abbrev SANE_CONSTRAINT_RANGE : SaneWord := 1
abbrev SANE_CONSTRAINT_WORD_LIST : SaneWord := 2
abbrev SANE_CONSTRAINT_STRING_LIST : SaneWord := 3

abbrev SANE_ACTION_GET_VALUE : SaneWord := 0
abbrev SANE_ACTION_SET_VALUE : SaneWord := 1
abbrev SANE_ACTION_SET_AUTO : SaneWord := 2

abbrev SANE_INFO_INEXACT : SaneWord := 1

/-! ### Structures of `sane.h` -/

structure SaneRange where
  min : SaneWord
  max : SaneWord
  quant : SaneWord
deriving DecidableEq, Repr

structure SaneDevice where
  name : SaneString
  vendor : SaneString
  model : SaneString
  type : SaneString
deriving DecidableEq, Repr

structure SaneParameters where
  format : SaneWord
  lastFrame : SaneWord
  bytesPerLine : SaneWord
  pixelsPerLine : SaneWord
  lines : SaneWord
  depth : SaneWord
deriving DecidableEq, Repr

/-- The union of pointers in a `SANE_Option_Descriptor`.  All members share one
    machine word, so the null pointer is the same for each of them. -/
inductive SaneConstraint where
  | null
  | wild
  | range (r : SaneRange)
  | wordList (ws : List SaneWord)
  | stringList (ss : List SaneString)
deriving DecidableEq, Repr

/-- `constraint.range`; another member read as a range is not a range pointer. -/
def SaneConstraint.asRange : SaneConstraint → Ptr SaneRange
  | .null => .null
  | .range r => .block r
  | _ => .wild

def SaneConstraint.asWordList : SaneConstraint → Ptr (List SaneWord)
  | .null => .null
  | .wordList ws => .block ws
  | _ => .wild

def SaneConstraint.asStringList : SaneConstraint → Ptr (List SaneString)
  | .null => .null
  | .stringList ss => .block ss
  | _ => .wild

def SaneConstraint.ofRange : Ptr SaneRange → SaneConstraint
  | .null => .null
  | .wild => .wild
  | .block r => .range r

def SaneConstraint.ofWordList : Ptr (List SaneWord) → SaneConstraint
  | .null => .null
  | .wild => .wild
  | .block ws => .wordList ws

def SaneConstraint.ofStringList : Ptr (List SaneString) → SaneConstraint
  | .null => .null
  | .wild => .wild
  | .block ss => .stringList ss

@[simp] theorem SaneConstraint.asRange_ofRange (p : Ptr SaneRange) :
    (SaneConstraint.ofRange p).asRange = p := by cases p <;> rfl

@[simp] theorem SaneConstraint.asWordList_ofWordList (p : Ptr (List SaneWord)) :
    (SaneConstraint.ofWordList p).asWordList = p := by cases p <;> rfl

@[simp] theorem SaneConstraint.asStringList_ofStringList (p : Ptr (List SaneString)) :
    (SaneConstraint.ofStringList p).asStringList = p := by cases p <;> rfl

structure SaneOptionDescriptor where
  name : SaneString
  title : SaneString
  desc : SaneString
  type : SaneWord
  unit : SaneWord
  size : SaneWord
  cap : SaneWord
  constraintType : SaneWord
  constraint : SaneConstraint
deriving DecidableEq, Repr

/-- A counted array: the `SANE_Word` length and the pointer that go together in
    every call of `sanei_w_array`. -/
structure SaneArray (α : Type) where
  len : SaneWord
  v : Ptr (List α)
deriving DecidableEq, Repr

/-! ### Representation in memory -/

/-- What the code relies on about a C type: its `sizeof`, the value all of whose
    bytes are zero (`memset`), and whether freeing an element of the type reads
    that element. -/
class CType (α : Type) where
  sizeof : Nat
  zero : α
  freeReads : Bool

instance : CType Unit := ⟨0, (), false⟩
instance : CType SaneByte := ⟨1, 0, false⟩
instance : CType SaneWord := ⟨4, 0, false⟩
instance {α : Type} : CType (Ptr α) := ⟨8, .null, true⟩
instance : CType SaneRange := ⟨12, ⟨0, 0, 0⟩, false⟩
instance : CType SaneDevice := ⟨32, ⟨.null, .null, .null, .null⟩, true⟩
instance : CType SaneParameters := ⟨24, ⟨0, 0, 0, 0, 0, 0⟩, false⟩
instance : CType SaneOptionDescriptor :=
  ⟨56, ⟨.null, .null, .null, 0, 0, 0, 0, 0, .null⟩, true⟩
instance {α : Type} : CType (SaneArray α) := ⟨16, ⟨0, .null⟩, true⟩

end SaneBackends
