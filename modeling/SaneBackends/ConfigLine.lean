import SaneBackends.ConfigRead
import SaneBackends.ConstrainedWords
import SaneBackends.CNumbers

/-!
# One line of a configuration file

What `sanei_configure_attach` does with a line: it is blank, a comment, the value of a configured
option, or a device to attach.  A word is a bare one or one in quotes; the code tells neither a
word that is missing from an empty one, nor the keyword `option` from words that begin with it.
-/

namespace SaneBackends.SaneiConfig

open FaultState Overwrite

/-! ### Words -/

def saneiConfigSkipWhitespace (str : CStr) : CStr := str.dropWhile isSpace

/-- `sanei_config_get_string`: the string constant, nothing if its final double quote is missing,
    and where the scan stopped. -/
def saneiConfigGetString (str : CStr) : Option CStr × CStr :=
  let str := saneiConfigSkipWhitespace str
  if str.head? = some 0x22 then
    let start := str.tail
    match start.dropWhile (· != 0x22) with
    | [] => (none, [])
    | _ :: rest => (some (start.takeWhile (· != 0x22)), rest)
  else (some (str.takeWhile fun b => !isSpace b), str.dropWhile fun b => !isSpace b)

/-! ### Values -/

/-- How a word of a value is read.  `SANE_FIX (strtod (string, NULL))` is a parameter. -/
def wordOf (fix : CStr → SaneWord) (type : SaneWord) : Option (CStr → Option SaneWord) :=
  if type = SANE_TYPE_INT then
    some fun string => some (BitVec.ofInt 32 ((strtol 0 string).getD 0))
  else if type = SANE_TYPE_BOOL then
    some fun string =>
      if string = ascii ['1'] ∨ string = ascii ['t', 'r', 'u', 'e'] then some SANE_TRUE
      else if string = ascii ['0'] ∨ string = ascii ['f', 'a', 'l', 's', 'e'] then some SANE_FALSE
      else none
  else if type = SANE_TYPE_FIXED then some fun string => some (fix string)
  else none

/-- The loops over the words of a value; nothing for `return SANE_STATUS_INVAL`. -/
def parseWords (conv : CStr → Option SaneWord) : Nat → CStr → Option (List SaneWord)
  | 0, _ => some []
  | n + 1, lp =>
    match saneiConfigGetString lp with
    | (none, _) => none
    | (some string, lp) =>
      match conv string with
      | none => none
      | some w => (parseWords conv n lp).map (w :: ·)

def wordsOf (d : SaneOptionDescriptor) : Nat := d.size.toInt.toNat / 4

/-- The block `value` and `size` afterwards; nothing for `return SANE_STATUS_INVAL`.  An option
    without a value leaves the null pointer, a block of no bytes, and the old `size`. -/
def parseOption (fix : CStr → SaneWord) (d : SaneOptionDescriptor) (lp : CStr) (size : Int) :
    Except Fault (Option (List SaneByte × Int)) :=
  match wordOf fix d.type with
  | some conv =>
    .ok ((parseWords conv (wordsOf d) lp).map fun ws => (ws.flatMap hostBytes, d.size.toInt))
  | none =>
    if d.type = SANE_TYPE_STRING then
      match (saneiConfigGetString lp).1 with
      | none => .ok none
      | some string =>
        if d.size.toInt < string.length + 1 then
          if 1 ≤ d.size.toInt then
            .ok (some ((string ++ [0]).set (d.size.toInt - 1).toNat 0, d.size.toInt - 1))
          else .error .outOfBounds
        else .ok (some (string ++ [0], string.length + 1))
    else .ok (some ([], size))

/-- `memcpy (config->values[i], value, size)`; the bytes of a block behind its last word have no
    value. -/
def memcpyValue (values : List (List SaneByte)) (i : Nat) (value : List SaneByte) (size : Int) :
    Except Fault (List (List SaneByte)) := do
  let old ← cellAt values i
  if 0 ≤ size ∧ size ≤ value.length ∧ size ≤ old.length then
    setCell values i (overwrite old 0 (value.take size.toNat))
  else .error .outOfBounds

/-! ### A line -/

inductive Event where
  | attach (devname : CStr)
  | store (i : Nat) (value : List SaneByte)
deriving DecidableEq, Repr

/-- The configured values, the variable `size`, and what has been done so far. -/
structure Progress where
  values : List (List SaneByte)
  size : Int
  events : List Event

def nameIs (d : SaneOptionDescriptor) : Option CStr → Except Fault Bool
  | none => .error .nullPointer
  | some token => do strcmpEqual (← followPtr d.name) (token ++ [0])

def findOption (token : Option CStr) :
    List SaneOptionDescriptor → Nat → Except Fault (Option (Nat × SaneOptionDescriptor))
  | [], _ => .ok none
  | d :: ds, i => do
    if ← nameIs d token then return some (i, d) else findOption token ds (i + 1)

def checkAndStore (d : SaneOptionDescriptor) (i : Nat) (value : List SaneByte) (size : Int)
    (s : Progress) : Except Fault (SaneStatus × Progress) := do
  let status ← saneiCheckValue d value
  if status = .good then
    let values ← memcpyValue s.values i value size
    return (status, ⟨values, size, s.events ++ [.store i (value.take size.toNat)]⟩)
  else return (status, { s with size := size })

def optionWord : CStr := ascii ['o', 'p', 't', 'i', 'o', 'n']

/-- How the body of the loop ends: by `return SANE_STATUS_INVAL`, or with a status. -/
inductive LineEnd where
  | leave
  | goOn (status : SaneStatus)
deriving DecidableEq, Repr

/-- What becomes of a token and the rest of the line; `lp2` is the line. -/
def matchToken (fix : CStr → SaneWord) (descriptors : List SaneOptionDescriptor)
    (lp2 : CStr) (token : Option CStr × CStr) (s : Progress) :
    Except Fault (LineEnd × Progress) := do
  match ← findOption token.1 descriptors 0 with
  | none => return (.goOn .good, { s with events := s.events ++ [.attach lp2] })
  | some (i, d) =>
    match ← parseOption fix d token.2 s.size with
    | none => return (.leave, s)
    | some (value, size) =>
      let (status, s) ← checkAndStore d i value size s
      return (.goOn status, s)

def processLine (fix : CStr → SaneWord) (descriptors : List SaneOptionDescriptor)
    (line : CStr) (s : Progress) : Except Fault (LineEnd × Progress) :=
  if saneiConfigSkipWhitespace line = [] then .ok (.goOn .good, s)
  else if line.head? = some 0x23 then .ok (.goOn .good, s)
  else
    let line := if line.getLast? = some 0x0a then line.dropLast else line
    let lp2 := saneiConfigSkipWhitespace line
    match saneiConfigGetString lp2 with
    | (none, _) => .error .nullPointer  -- `strncmp (token, "option", 6)`
    | (some token, lp) =>
      if optionWord <+: token then
        matchToken fix descriptors lp2 (saneiConfigGetString lp) s
      else matchToken fix descriptors lp2 (some token, lp) s

end SaneBackends.SaneiConfig
