import SaneBackends.Numerals
import SaneBackends.SaneTypes
import Mathlib.Data.Rat.Floor

/-!
# Vectors on the command line

`parse_scalar` and `parse_vector` of `scanimage` for an option of words, and the grammar that is
written above them.  A `double` is a rational number.
-/

namespace SaneBackends.ScanimageVector

inductive SaneUnit
  | none | pixel | bit | mm | dpi | percent | microsecond
  deriving DecidableEq

structure VectorOption where
  unit : SaneUnit
  length : Nat
  length_lt : length < 2 ^ 31

/-! ### Numbers -/

/-- The fraction of a number is cut off. -/
def truncate (v : ℚ) : Int := if v < 0 then ⌈v⌉ else ⌊v⌋

def IsWord (v : Int) : Prop := -2 ^ 31 ≤ v ∧ v < 2 ^ 31

instance (v : Int) : Decidable (IsWord v) := inferInstanceAs (Decidable (_ ∧ _))

/-- A number stored as a word; what becomes of one that does not fit is left open. -/
structure Conversion where
  word : Int → SaneWord
  toInt_word : ∀ v, IsWord v → (word v).toInt = v

/-- The value is rounded. -/
def roundWord (v : ℚ) : Int := if v < 0 then truncate (v - 1 / 2) else truncate (v + 1 / 2)

/-! ### The source -/

/-- Why the function does not return. -/
inductive Halt
  | exit
  | running
  | fault (f : Fault)
  deriving DecidableEq

/-- The `switch` over the unit. -/
def parseUnit (unit : SaneUnit) (v : ℚ) (str : CStr) : Option (ℚ × CStr) :=
  match unit with
  | .none | .pixel => some (v, str)
  | .bit =>
    if str.head? = some 0x42 then some (v * 8, str.tail)
    else if str.head? = some 0x62 then some (v, str.tail)
    else some (v, str)
  | .mm =>
    if str = [] then some (v, str)
    else if str = ascii ['m', 'm'] then some (v, str.drop 2)
    else if str = ascii ['c', 'm'] then some (v * 10, str.drop 2)
    else if str.head? = some 0x22 then some (v * (127 / 5), str.tail)
    else if str = ascii ['i', 'n'] then some (v * (127 / 5), str.drop 2)
    else none
  | .dpi => if str = ascii ['d', 'p', 'i'] then some (v, str.drop 3) else some (v, str)
  | .percent => if str.head? = some 0x25 then some (v, str.tail) else some (v, str)
  | .microsecond => if str = ascii ['u', 's'] then some (v, str.drop 2) else some (v, str)

/-- The value and the rest of the string, nothing if the program exits. -/
def parseScalar (c : Conversion) (unit : SaneUnit) (str : CStr) : Option (SaneWord × CStr) := do
  let n ← strtol 10 str
  let (v, str) ← parseUnit unit n (strtolEnd str)
  return (c.word (roundWord v), str)

/-- The index in brackets. -/
def readIndex (str : CStr) : Option (Int × CStr) := do
  let n ← strtol 10 str
  let «end» := strtolEnd str
  if «end».head? = some 0x5d then return (longToInt n, «end».tail) else Option.none

def nextIndex (index : Int) (str : CStr) : Option (Int × CStr) :=
  if str.head? = some 0x5b then readIndex str.tail else some (index + 1, str)

/-- One value with its index: the index, the value and the rest behind it. -/
def parseElement (c : Conversion) (o : VectorOption) (index : Int) (str : CStr) :
    Option (Int × SaneWord × CStr) := do
  let (index, str) ← nextIndex index str
  if index < 0 ∨ index ≥ o.length then Option.none
  else
    let (value, str) ← parseScalar c o.unit str
    if str ≠ [] ∧ str.head? ≠ some 0x2d ∧ str.head? ≠ some 0x2c then Option.none
    else return (index, value, str)

/-- `n` turns of the loop that interpolates, with what they store. -/
def interpolate (c : Conversion) : Nat → Int → ℚ → ℚ → List (Int × SaneWord)
  | 0, _, _, _ => []
  | n + 1, i, v, slope =>
    (i, c.word (truncate (v + slope))) :: interpolate c n (i + 1) (v + slope) slope

/-- What one turn of the main loop stores. -/
def storesOf (c : Conversion) (prevIndex : Int) (prevValue : SaneWord) (dash : Bool) (index : Int)
    (value : SaneWord) : List (Int × SaneWord) :=
  (index, value) ::
    if dash = true then
      interpolate c (index - (prevIndex + 1)).toNat (prevIndex + 1) prevValue.toInt
        (((value.toInt : ℚ) - prevValue.toInt) / ((index : ℚ) - prevIndex))
    else []

def store (vector : List SaneWord) (s : Int × SaneWord) : Except Halt (List SaneWord) :=
  if 0 ≤ s.1 ∧ s.1 < vector.length then .ok (vector.set s.1.toNat s.2)
  else .error (.fault .outOfBounds)

/-- The main loop, with the vector that it leaves and what each turn stores. -/
def parseLoop (c : Conversion) (o : VectorOption) : Nat → List SaneWord → Int → Int → SaneWord →
    SaneByte → CStr → Except Halt (List SaneWord × List (List (Int × SaneWord)))
  | 0, _, _, _, _, _, _ => .error .running
  | turns + 1, vector, index, prevIndex, prevValue, separator, str =>
    match parseElement c o index str with
    | Option.none => .error .exit
    | some (index, value, str) => do
      let stores := storesOf c prevIndex prevValue (separator = 0x2d) index value
      let vector ← stores.foldlM store vector
      match str with
      | [] => return (vector, [stores])
      | separator :: str => do
        let (vector, more) ← parseLoop c o turns vector index index value separator str
        return (vector, stores :: more)

def parseVector (c : Conversion) (o : VectorOption) (str : CStr) :
    Except Halt (List SaneWord × List (List (Int × SaneWord))) :=
  parseLoop c o (str.length + 1) (List.replicate o.length 0) (-1) 0 0 0 str

/-! ### The grammar -/

/-- The units that are allowed for an option's unit, with their factors. -/
def factor (unit : SaneUnit) (suffix : CStr) : Option ℚ :=
  if suffix = [] then some 1
  else
    match unit with
    | .none => Option.none
    | .pixel => if suffix = ascii ['p', 'e', 'l'] then some 1 else Option.none
    | .bit =>
      if suffix = ascii ['b'] then some 1
      else if suffix = ascii ['B'] then some 8
      else Option.none
    | .mm =>
      if suffix = ascii ['m', 'm'] then some 1
      else if suffix = ascii ['c', 'm'] then some 10
      else if suffix = ascii ['i', 'n'] ∨ suffix = ascii ['"'] then some (127 / 5)
      else Option.none
    | .dpi => if suffix = ascii ['d', 'p', 'i'] then some 1 else Option.none
    | .percent => if suffix = ascii ['%'] then some 1 else Option.none
    | .microsecond => if suffix = ascii ['u', 's'] then some 1 else Option.none

/-- `[ '[' I ']' ] S` -/
structure Element where
  index : Option Numeral
  value : Numeral
  suffix : CStr
  deriving DecidableEq

def Element.text (e : Element) : CStr :=
  (e.index.elim [] fun n => 0x5b :: (n.text ++ [0x5d])) ++ (e.value.text ++ e.suffix)

/-- The index of the element behind index `prev`. -/
def Element.next (e : Element) (prev : Int) : Int := e.index.elim (prev + 1) Numeral.value

def Element.amount (unit : SaneUnit) (e : Element) : Int :=
  roundWord (e.value.value * (factor unit e.suffix).getD 1)

/-- The elements, each with whether a dash is in front of it. -/
abbrev Elements := List (Bool × Element)

def separatorOf (dash : Bool) : SaneByte := if dash then 0x2d else 0x2c

def textOf (els : Elements) : CStr := els.flatMap fun e => separatorOf e.1 :: e.2.text

/-- What is strictly between two indices. -/
def between (i j : Int) : List Int :=
  (List.range ((j - i).natAbs - 1)).map fun k : Nat => min i j + 1 + (k : Int)

/-- The line through two points. -/
def line (i v j w : Int) (k : Int) : Int :=
  truncate (v + ((w : ℚ) - v) * ((k : ℚ) - i) / ((j : ℚ) - i))

/-- What is set for each element. -/
def assignments (unit : SaneUnit) (prev value : Int) : Elements → List (List (Int × Int))
  | [] => []
  | (dash, e) :: els =>
    let i := e.next prev
    let v := e.amount unit
    ((i, v) :: if dash = true then (between prev i).map fun k => (k, line prev value i v k) else [])
      :: assignments unit i v els

/-- The indices are those of a vector of that length. -/
def InRange (next : Element → Int → Int) (length : Nat) (prev : Int) : Elements → Prop
  | [] => True
  | (_, e) :: els => 0 ≤ next e prev ∧ next e prev < length ∧ InRange next length (next e prev) els

/-- A vector: the first element and the others behind their separators. -/
structure Vector where
  first : Element
  rest : Elements

namespace Vector

def elements (t : Vector) : Elements := (false, t.first) :: t.rest

/-- The vector can be written as the string. -/
def Reads (unit : SaneUnit) (t : Vector) (str : CStr) : Prop :=
  str = t.first.text ++ textOf t.rest ∧ ∀ e ∈ t.elements, factor unit e.2.suffix ≠ Option.none

def Fits (t : Vector) (length : Nat) : Prop := InRange Element.next length (-1) t.elements

def assignments (unit : SaneUnit) (t : Vector) : List (List (Int × Int)) :=
  ScanimageVector.assignments unit (-1) 0 t.elements

end Vector

/-- A vector with some of its elements set. -/
def assign {α : Type} (vector : List α) (stores : List (Int × α)) : List α :=
  stores.foldl (fun v s => v.set s.1.toNat s.2) vector

/-- The stores as numbers. -/
def decoded (groups : List (List (Int × SaneWord))) : List (List (Int × Int)) :=
  groups.map fun stores => stores.map fun s => (s.1, s.2.toInt)

/-- The string is read as the grammar says. -/
structure Correct (c : Conversion) (o : VectorOption) (str : CStr) : Prop where
  accepts : ∀ t : Vector, t.Reads o.unit str → t.Fits o.length →
    ∃ vector groups, parseVector c o str = .ok (vector, groups) ∧
      decoded groups = t.assignments o.unit ∧
      vector.map BitVec.toInt = assign (List.replicate o.length 0) (t.assignments o.unit).flatten ∧
      ∀ stores ∈ groups, ∀ s ∈ stores, 0 ≤ s.1 ∧ s.1 < o.length
  rejects : (¬ ∃ t : Vector, t.Reads o.unit str ∧ t.Fits o.length) →
    parseVector c o str = .error .exit

end SaneBackends.ScanimageVector
