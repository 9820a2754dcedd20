import SaneBackends.WireCodec

/-!
# The ASCII codec

`sanei/sanei_codec_ascii.c`, the codec that writes values as text: a byte as two
hexadecimal digits, a char and a string in quotes, a word in decimal, each followed by a
newline.  Unlike the binary codec its functions go on when the wire status is set.
-/

namespace SaneBackends

open FaultState WordBytes

abbrev newline : SaneByte := 0x0a
abbrev quote : SaneByte := 0x27
abbrev doubleQuote : SaneByte := 0x22
abbrev backslash : SaneByte := 0x5c

/-! ### Looking at the buffer -/

/-- `*w->buffer.curr`. -/
def currByte : WireM SaneByte := do
  let w ← get
  if w.buffer.curr + 1 > w.buffer.size then throw .outOfBounds
  return (w.buffer.mem.drop w.buffer.curr).headD 0

/-- `*w->buffer.curr++`. -/
def nextByte : WireM SaneByte := do return (← getBytes 1).headD 0

/-- `++w->buffer.curr`. -/
def advance : WireM Unit := modify fun w =>
  { w with buffer := { w.buffer with curr := w.buffer.curr + 1 } }

/-- No loop that takes a byte in each turn takes more turns: the bytes that may come, and
    those in the buffer. -/
def loopFuel : WireM Nat := do
  let w ← get
  return w.io.inbound.length + w.buffer.size + 1

/-- The loop of `skip_ws`. -/
def skipWsLoop : Nat → WireM Unit
  | 0 => return ()
  | fuel + 1 => do
      saneiWSpace 1
      if (← wireStatus) ≠ 0 then return ()
      if isSpace (← currByte) then
        advance
        skipWsLoop fuel

def skipWs : WireM Unit := do skipWsLoop (← loopFuel)

/-! ### Bytes -/

def hexdigit (i : SaneByte) : SaneByte :=
  (ascii ['0', '1', '2', '3', '4', '5', '6', '7', '8', '9', 'a', 'b', 'c', 'd', 'e', 'f']).getD
    i.toNat 0

/-- The value of a hexadecimal digit. -/
def digitValue (b : SaneByte) : SaneWord :=
  let digit := (toLower b).signExtend 32 - 48
  if 9 < digit.toNat then digit - 39 else digit

def getDigit : WireM SaneWord := do
  saneiWSpace 1
  let digit := digitValue (← nextByte)
  if 0xf < digit.toNat then
    setStatus EINVAL
    return 0
  return digit

/-- The operands of `|` are evaluated from left to right. -/
def getByte : WireM SaneByte := do
  let high ← getDigit
  let low ← getDigit
  return ((high <<< 4) ||| low).setWidth 8

def asciiWByte : WireCodecFunc SaneByte := fun b => do
  match ← wireDirection with
  | .encode =>
      saneiWSpace 3
      putBytes [hexdigit ((b >>> 4) &&& 0x0f), hexdigit (b &&& 0x0f), newline]
      return b
  | .decode =>
      skipWs
      getByte
  | .free => return b

/-! ### Chars -/

def asciiWChar : WireCodecFunc SaneByte := fun c => do
  match ← wireDirection with
  | .encode =>
      saneiWSpace 5
      let escape := if c = quote ∨ c = backslash then [backslash] else []
      putBytes (quote :: escape ++ [c, quote, newline])
      return c
  | .decode =>
      saneiWSpace 4
      if (← nextByte) ≠ quote then
        setStatus EINVAL
        return c
      let c ← nextByte
      let c ←
        if c = backslash then do
          saneiWSpace 2
          nextByte
        else pure c
      if (← nextByte) ≠ quote then setStatus EINVAL
      return c
  | .free => return c

/-! ### Strings -/

/-- A byte of a string as it is written. -/
def escaped (ch : SaneByte) : List SaneByte :=
  if ch = doubleQuote ∨ ch = backslash then [backslash, ch] else [ch]

/-- The loop that writes the bytes of a string. -/
def putChars : List SaneByte → WireM Unit
  | [] => throw .outOfBounds
  | ch :: str =>
      if ch = 0 then return ()
      else do
        saneiWSpace 2
        putBytes (escaped ch)
        putChars str

/-- `realloc` of a block of `old` bytes, which may be none, to `new` bytes. -/
def realloc (old new : Nat) : WireM Bool := do
  let ok ← malloc new
  if ok then modify fun w => { w with heap := { w.heap with live := w.heap.live - old } }
  return ok

/-- The loop that reads the bytes of a string up to the quote at its end; `str` are those
    read, in a block of `alloced` bytes.  Nothing is returned after an error. -/
def getChars : Nat → Nat → List SaneByte → WireM (Option (Nat × List SaneByte))
  | 0, _, _ => return none
  | fuel + 1, alloced, str => do
      saneiWSpace 1
      if (← wireStatus) ≠ 0 then return none
      let first ← nextByte
      let ch ←
        if first = backslash then do
          saneiWSpace 1
          nextByte
        else pure first
      let room := if alloced ≤ str.length then alloced + 1024 else alloced
      if alloced ≤ str.length then
        if !(← realloc alloced room) then
          setStatus ENOMEM
          return none
      if first = doubleQuote then return some (room, str) else getChars fuel room (str ++ [ch])

/-- The rest of `(nil)`; the comparison stops at the first byte that differs. -/
def getNil : List SaneByte → WireM Bool
  | [] => return true
  | b :: bs => do
      if (← nextByte) ≠ b then return false
      getNil bs

def asciiWString : WireCodecFunc SaneString := fun s => do
  match ← wireDirection with
  | .encode =>
      match s with
      | .null =>
          saneiWSpace 5
          putBytes (ascii ['(', 'n', 'i', 'l', ')'])
      | p => do
          let str ← deref p
          saneiWSpace 1
          putBytes [doubleQuote]
          putChars str
          putBytes [doubleQuote]
      saneiWSpace 1
      putBytes [newline]
      return s
  | .decode =>
      skipWs
      saneiWSpace 1
      let ch ← nextByte
      if ch = doubleQuote then
        match ← getChars (← loopFuel) 0 [] with
        | none => return s
        | some (alloced, str) =>
            -- the quote at the end is replaced by the NUL
            if ← realloc alloced (str.length + 1) then return .block (str ++ [0])
            else
              setStatus ENOMEM
              return .null
      else if ch = 0x28 then
        saneiWSpace 4
        if ← getNil (ascii ['n', 'i', 'l', ')']) then return .null
        else
          setStatus EINVAL
          return s
      else
        setStatus EINVAL
        return s
  | .free =>
      match s with
      | .null => return s
      | p => do
          let str ← deref p
          release str.length 0
          return .wild

/-! ### Words -/

/-- The loop that stores the digits of `val` in front of those that are there; `buf` has
    room for more than ten. -/
def putDigits : Nat → Int → List SaneByte → List SaneByte
  | 0, _, buf => buf
  | fuel + 1, val, buf =>
      let buf := BitVec.ofInt 8 (48 + val.tmod 10) :: buf
      if val.tdiv 10 = 0 then buf else putDigits fuel (val.tdiv 10) buf

/-- A word in decimal.  The smallest word is its own negative. -/
def wordText (word : SaneWord) : List SaneByte :=
  if word.toInt < 0 then 0x2d :: putDigits 10 (-word).toInt [] else putDigits 10 word.toInt []

/-- The loop that reads the digits of a word. -/
def getDigits : Nat → SaneWord → WireM (Option SaneWord)
  | 0, _ => return none
  | fuel + 1, val => do
      saneiWSpace 1
      if (← wireStatus) ≠ 0 then return none
      if isDigit (← currByte) then
        let ch ← nextByte
        getDigits fuel (10 * val + (ch.signExtend 32 - 48))
      else return some val

def asciiWWord : WireCodecFunc SaneWord := fun word => do
  match ← wireDirection with
  | .encode =>
      saneiWSpace ((wordText word).length + 1)
      putBytes (wordText word ++ [newline])
      return word
  | .decode =>
      skipWs
      saneiWSpace 1
      let isNegative := (← currByte) = 0x2d
      if isNegative then advance
      match ← getDigits (← loopFuel) 0 with
      | none => return word
      | some val => return (if isNegative then -val else val)
  | .free => return word

/-- `sanei_codec_ascii_init`. -/
def saneiCodecAscii : Codec := ⟨⟨asciiWByte, asciiWChar, asciiWWord⟩, asciiWString⟩

/-! ### Sequences -/

/-- A value that is moved by one of the functions of a codec. -/
inductive WireItem where
  | byte (b : SaneByte)
  | char (c : SaneByte)
  | word (w : SaneWord)
  | string (s : SaneString)
deriving DecidableEq, Repr

def WireItem.transfer (codec : Codec) : WireCodecFunc WireItem
  | .byte b => do return .byte (← saneiWByte codec.toCodecPrims b)
  | .char c => do return .char (← saneiWChar codec.toCodecPrims c)
  | .word w => do return .word (← saneiWWord codec.toCodecPrims w)
  | .string s => do return .string (← saneiWString codec s)

/-- Values one after the other. -/
def transferAll (codec : Codec) : List WireItem → WireM (List WireItem)
  | [] => return []
  | item :: items => do
      let item ← item.transfer codec
      let items ← transferAll codec items
      return item :: items

end SaneBackends
