import SaneBackends.CStrings

/-!
# Numbers in C strings

`strtol` of the C library, with a `long` of 64 bits.
-/

namespace SaneBackends

def charValue (b : SaneByte) : Option Nat :=
  if 48 ≤ b.toNat ∧ b.toNat ≤ 57 then some (b.toNat - 48)
  else if 97 ≤ b.toNat ∧ b.toNat ≤ 122 then some (b.toNat - 87)
  else if 65 ≤ b.toNat ∧ b.toNat ≤ 90 then some (b.toNat - 55)
  else none

def digitsOf (base : Nat) : CStr → List Nat
  | [] => []
  | b :: bs =>
    match charValue b with
    | some d => if d < base then d :: digitsOf base bs else []
    | none => []

def hexPrefixed : CStr → Bool
  | 0x30 :: x :: bs => (x == 0x78 || x == 0x58) && (digitsOf 16 bs).length != 0
  | _ => false

/-- The base (0 stands for the one that the string shows) and the string behind a prefix. -/
def radixOf (base : Nat) (s : CStr) : Nat × CStr :=
  if hexPrefixed s ∧ (base = 0 ∨ base = 16) then (16, s.drop 2)
  else if base = 0 then (if s.head? = some 0x30 then 8 else 10, s)
  else (base, s)

def signOf : CStr → Int × CStr
  | 0x2d :: s => (-1, s)
  | 0x2b :: s => (1, s)
  | s => (1, s)

/-- `strtol (s, &end, base)`, nothing if there are no digits (`end == s`). -/
def strtol (base : Nat) (s : CStr) : Option Int :=
  let signed := signOf (s.dropWhile isSpace)
  let based := radixOf base signed.2
  match digitsOf based.1 based.2 with
  | [] => none
  | ds =>
    let value := signed.1 * ds.foldl (fun (n : Int) d => n * based.1 + d) 0
    some (max (-2 ^ 63) (min value (2 ^ 63 - 1)))

def longToInt (v : Int) : Int := v.bmod (2 ^ 32)

/-- Numbers are read with their sign and base, and are limited to a `long`. -/
example : strtol 0 (ascii [' ', '-', '0', 'x', '1', 'F', 'g']) = some (-31) ∧
    strtol 0 (ascii ['0', '1', '0', '8']) = some 8 ∧ strtol 10 (ascii ['+', 'a']) = none := by
  decide

end SaneBackends
