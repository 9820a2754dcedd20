import SaneBackends.ConfigLine
import SaneBackends.FaultState
import SaneBackends.SaneDesc

/-!
# Reading the description files

`read_files` of `sane-desc`.  A pointer to an entry is its place in the lists; entries are only
added, and when a backend is inserted all pointers are set anew.
-/

namespace SaneBackends.SaneDesc

open SaneiConfig (saneiConfigSkipWhitespace)

/-! ### Tokens -/

/-- What is in front of the closing quotation mark and the rest from there on. -/
def quoted (prev : SaneByte) : CStr → CStr × CStr
  | [] => ([], [])
  | b :: bs =>
    if b ≠ 0x22 ∨ prev = 0x5c then
      let (word, rest) := quoted b bs
      (b :: word, rest)
    else ([], b :: bs)

/-- `get_token`: the rest of the string and the token, which is missing if its final double quote
    is missing. -/
def getToken (str : CStr) : CStr × Option CStr :=
  let str := saneiConfigSkipWhitespace str
  if str.head? = some 0x22 then
    match quoted 0x22 str.tail with
    | (_, []) => ([], none)
    | (word, _ :: rest) => (rest, some word)
  else (str.dropWhile fun b => !isSpace b, some (str.takeWhile fun b => !isSpace b))

/-- Remove escaped quotations. -/
def unescape : CStr → CStr
  | [] => []
  | [b] => [b]
  | a :: b :: s =>
    if a = 0x5c ∧ b = 0x22 then 0x20 :: unescape (b :: s) else a :: unescape (b :: s)

def getString (cp : CStr) : Option (CStr × CStr) :=
  let (cp, word) := getToken cp
  word.map fun word => (unescape word, cp)

def matchKeyword (line keywordToken : CStr) : Option CStr :=
  let (cp, word) := getToken line
  if word = some keywordToken then some cp else none

/-- `read_keyword` with `param_string`. -/
def readKeyword (line keywordToken : CStr) : Option CStr := do
  let cp ← matchKeyword line keywordToken
  let (string, _) ← getString cp
  return string

/-- `read_keyword` with `param_two_strings`. -/
def readTwoStrings (line keywordToken : CStr) : Option (CStr × CStr) := do
  let cp ← matchKeyword line keywordToken
  let (string₀, cp) ← getString cp
  let (string₁, _) ← getString cp
  return (string₀, string₁)

/-- `read_keyword` with `param_three_strings`. -/
def readThreeStrings (line keywordToken : CStr) : Option (CStr × CStr × CStr) := do
  let cp ← matchKeyword line keywordToken
  let (string₀, cp) ← getString cp
  let (string₁, cp) ← getString cp
  let (string₂, _) ← getString cp
  return (string₀, string₁, string₂)

/-! ### Lines -/

inductive Keyword
  | backend (name : CStr)
  | version (version : CStr)
  | status (status : CStr)
  | new (new : CStr)
  | manpage (manpage : CStr)
  | devicetype (type : CStr)
  | desc (desc : CStr)
  | mfg (name : CStr)
  | model (name : CStr)
  | interface (interface : CStr)
  | scsi (vendor product kind : CStr)
  | usbid (vendor product : CStr)
  | url (url : CStr)
  | comment (comment : CStr)

inductive Line
  | ignored
  | keyword (k : Keyword)
  | unknown

/-- The keywords in the order in which `read_files` looks for them. -/
def parseKeyword (line : CStr) : Option Keyword :=
  (.backend <$> readKeyword line (ascii [':', 'b', 'a', 'c', 'k', 'e', 'n', 'd'])) <|>
  (.version <$> readKeyword line (ascii [':', 'v', 'e', 'r', 's', 'i', 'o', 'n'])) <|>
  (.status <$> readKeyword line (ascii [':', 's', 't', 'a', 't', 'u', 's'])) <|>
  (.new <$> readKeyword line (ascii [':', 'n', 'e', 'w'])) <|>
  (.manpage <$> readKeyword line (ascii [':', 'm', 'a', 'n', 'p', 'a', 'g', 'e'])) <|>
  (.devicetype <$>
    readKeyword line (ascii [':', 'd', 'e', 'v', 'i', 'c', 'e', 't', 'y', 'p', 'e'])) <|>
  (.desc <$> readKeyword line (ascii [':', 'd', 'e', 's', 'c'])) <|>
  (.mfg <$> readKeyword line (ascii [':', 'm', 'f', 'g'])) <|>
  (.model <$> readKeyword line (ascii [':', 'm', 'o', 'd', 'e', 'l'])) <|>
  (.interface <$>
    readKeyword line (ascii [':', 'i', 'n', 't', 'e', 'r', 'f', 'a', 'c', 'e'])) <|>
  ((fun s => .scsi s.1 s.2.1 s.2.2) <$>
    readThreeStrings line (ascii [':', 's', 'c', 's', 'i'])) <|>
  ((fun s => .usbid s.1 s.2) <$>
    readTwoStrings line (ascii [':', 'u', 's', 'b', 'i', 'd'])) <|>
  (.url <$> readKeyword line (ascii [':', 'u', 'r', 'l'])) <|>
  (.comment <$> readKeyword line (ascii [':', 'c', 'o', 'm', 'm', 'e', 'n', 't']))

/-- Empty lines and comments are ignored. -/
def parseLine (line : CStr) : Line :=
  let (cp, word) := getToken line
  match word with
  | none => .ignored
  | some word =>
    if cp = line then .ignored
    else if word.head? = some 0x3b then .ignored
    else (parseKeyword line).elim .unknown .keyword

/-! ### Values -/

def statusOf (string : CStr) : Option StatusEntry :=
  if string = ascii [':', 'm', 'i', 'n', 'i', 'm', 'a', 'l'] then some .minimal
  else if string = ascii [':', 'b', 'a', 's', 'i', 'c'] then some .basic
  else if string = ascii [':', 'g', 'o', 'o', 'd'] then some .good
  else if string = ascii [':', 'c', 'o', 'm', 'p', 'l', 'e', 't', 'e'] then some .complete
  else if string = ascii [':', 'u', 'n', 't', 'e', 's', 't', 'e', 'd'] then some .untested
  else if string = ascii [':', 'u', 'n', 's', 'u', 'p', 'p', 'o', 'r', 't', 'e', 'd'] then
    some .unsupported
  else none

def newOf (string : CStr) : Option Bool :=
  if string = ascii [':', 'y', 'e', 's'] then some true
  else if string = ascii [':', 'n', 'o'] then some false
  else none

def deviceTypeOf (string : CStr) : Option DeviceType :=
  if string = ascii [':', 's', 'c', 'a', 'n', 'n', 'e', 'r'] then some .typeScanner
  else if string = ascii [':', 's', 't', 'i', 'l', 'l', 'c', 'a', 'm'] then some .typeStillcam
  else if string = ascii [':', 'v', 'i', 'd', 'c', 'a', 'm'] then some .typeVidcam
  else if string = ascii [':', 'a', 'p', 'i'] then some .typeApi
  else if string = ascii [':', 'm', 'e', 't', 'a'] then some .typeMeta
  else none

/-- `type >= type_meta` -/
def DeviceType.isMeta : DeviceType → Bool
  | .typeMeta | .typeApi => true
  | _ => false

def isXDigit (b : SaneByte) : Bool :=
  isDigit b || (65 ≤ b.toNat && b.toNat ≤ 70) || (97 ≤ b.toNat && b.toNat ≤ 102)

def isUpper (b : SaneByte) : Bool := 65 ≤ b.toNat && b.toNat ≤ 90

/-- An all-lowercase 4-digit hex number. -/
def checkHex (string : CStr) : Bool :=
  string.length == 6 && (ascii ['0', 'x']).isPrefixOf string && string.all (!isUpper ·) &&
    (string.drop 2).all isXDigit

/-- `strcasecmp (string, word) == 0` -/
def equalsIgnoringCase (string word : CStr) : Bool := string.map toLower = word.map toLower

def updateUrlList (urls : List CStr) (newUrl : CStr) : List CStr :=
  if urls.any fun url => stringCompare (some url) (some newUrl) = 0 then urls
  else urls ++ [newUrl]

def ModelEntry.setScsi (vendor product kind : CStr) (model : ModelEntry) : ModelEntry :=
  if equalsIgnoringCase vendor (ascii ['i', 'g', 'n', 'o', 'r', 'e']) then model
  else if equalsIgnoringCase kind (ascii ['p', 'r', 'o', 'c', 'e', 's', 's', 'o', 'r']) then
    { model with scsiIsProcessor := true, scsiVendorId := some vendor,
                 scsiProductId := some product }
  else model

def ModelEntry.setUsbid (vendor product : CStr) (model : ModelEntry) : ModelEntry :=
  if equalsIgnoringCase vendor (ascii ['i', 'g', 'n', 'o', 'r', 'e']) then
    { model with ignoreUsbId := true }
  else if checkHex vendor = false then model
  else if checkHex product = false then model
  else { model with usbVendorId := some vendor, usbProductId := some product }

/-- What a keyword does to an entity of any of the four levels. -/
structure Change where
  backend : BackendEntry → BackendEntry
  mfg : MfgEntry → MfgEntry
  desc : DescEntry → DescEntry
  model : ModelEntry → ModelEntry
  backend_keeps : ∀ be, (backend be).name = be.name ∧ (backend be).type = be.type
  mfg_keeps : ∀ m, (mfg m).model = m.model

def Change.addUrl (string : CStr) : Change where
  backend := fun be => { be with url := updateUrlList be.url string }
  mfg := fun mfg => { mfg with url := updateUrlList mfg.url string }
  desc := fun desc => { desc with url := updateUrlList desc.url string }
  model := fun model => { model with url := updateUrlList model.url string }
  backend_keeps := fun _ => ⟨rfl, rfl⟩
  mfg_keeps := fun _ => rfl

def Change.setComment (string : CStr) : Change where
  backend := fun be => { be with comment := some string }
  mfg := fun mfg => { mfg with comment := some string }
  desc := fun desc => { desc with comment := some string }
  model := fun model => { model with comment := some string }
  backend_keeps := fun _ => ⟨rfl, rfl⟩
  mfg_keeps := fun _ => rfl

/-! ### The state of `read_files` -/

inductive Level
  | backend | mfg | model | desc
  deriving DecidableEq

/-- Why `read_files` does not go on. -/
inductive Stop
  | failed
  | fault (f : Fault)
  deriving DecidableEq

abbrev TypePlace := Nat × Nat
abbrev MfgPlace := TypePlace × Nat
abbrev ModelPlace := MfgPlace × Nat

structure Parser where
  firstBackend : List BackendEntry := []
  currentBackend : Option Nat := none
  currentType : Option TypePlace := none
  currentMfg : Option MfgPlace := none
  currentModel : Option ModelPlace := none
  currentLevel : Level := .backend
  deriving DecidableEq

variable {α : Type}

/-- What a pointer points to. -/
def deref (p : Option α) : Except Stop α := p.elim (.error (.fault .nullPointer)) .ok

def entryAt (xs : List α) (i : Nat) : Except Stop α :=
  xs[i]?.elim (.error (.fault .wildPointer)) .ok

def modifyAt (xs : List α) (i : Nat) (f : α → Except Stop α) : Except Stop (List α) := do
  return xs.set i (← f (← entryAt xs i))

namespace Parser

def modifyBackend (s : Parser) (b : Nat) (f : BackendEntry → Except Stop BackendEntry) :
    Except Stop Parser := do
  return { s with firstBackend := ← modifyAt s.firstBackend b f }

def modifyType (s : Parser) (p : TypePlace) (f : TypeEntry → Except Stop TypeEntry) :
    Except Stop Parser :=
  s.modifyBackend p.1 fun be => do return { be with type := ← modifyAt be.type p.2 f }

def modifyMfg (s : Parser) (p : MfgPlace) (f : MfgEntry → Except Stop MfgEntry) :
    Except Stop Parser :=
  s.modifyType p.1 fun type => do return { type with mfg := ← modifyAt type.mfg p.2 f }

def modifyModel (s : Parser) (p : ModelPlace) (f : ModelEntry → Except Stop ModelEntry) :
    Except Stop Parser :=
  s.modifyMfg p.1 fun mfg => do return { mfg with model := ← modifyAt mfg.model p.2 f }

def backendAt (s : Parser) (b : Nat) : Except Stop BackendEntry := entryAt s.firstBackend b

def typeAt (s : Parser) (p : TypePlace) : Except Stop TypeEntry := do
  entryAt (← s.backendAt p.1).type p.2

def mfgAt (s : Parser) (p : MfgPlace) : Except Stop MfgEntry := do
  entryAt (← s.typeAt p.1).mfg p.2

def modelAt (s : Parser) (p : ModelPlace) : Except Stop ModelEntry := do
  entryAt (← s.mfgAt p.1).model p.2

end Parser

/-- In front of the first backend whose name is not smaller. -/
def backendPlace (name : Option CStr) (bs : List BackendEntry) : Nat :=
  bs.findIdx fun be => stringCompare name be.name ≤ 0

def insertBackend (bs : List BackendEntry) (be : BackendEntry) : List BackendEntry :=
  bs.take (backendPlace be.name bs) ++ be :: bs.drop (backendPlace be.name bs)

namespace Parser

def openBackend (s : Parser) (name : CStr) : Parser where
  firstBackend := insertBackend s.firstBackend { name := some name }
  currentBackend := some (backendPlace (some name) s.firstBackend)
  currentLevel := .backend

def devicetype (s : Parser) (b : Nat) (string : CStr) : Except Stop Parser := do
  let be ← s.backendAt b
  match deviceTypeOf string with
  | none => .error .failed
  | some type =>
    let s ← s.modifyBackend b fun be => .ok { be with type := be.type ++ [{ type := type }] }
    return { s with currentType := some (b, be.type.length), currentMfg := none,
                    currentModel := none }

def desc (s : Parser) (string : CStr) : Except Stop Parser :=
  match s.currentType with
  | none => .error .failed
  | some p => do
    if (← s.typeAt p).type.isMeta = false then .error .failed
    else
      let s ← s.modifyType p fun type => .ok { type with desc := some { desc := some string } }
      return { s with currentLevel := .desc, currentMfg := none, currentModel := none }

def mfg (s : Parser) (string : CStr) : Except Stop Parser :=
  match s.currentType with
  | none => .error .failed
  | some p => do
    let type ← s.typeAt p
    if type.type.isMeta = true then .error .failed
    else
      let s ← s.modifyType p fun type =>
        .ok { type with mfg := type.mfg ++ [{ name := some string }] }
      return { s with currentMfg := some (p, type.mfg.length), currentModel := none,
                      currentLevel := .mfg }

def model (s : Parser) (string : CStr) : Except Stop Parser :=
  match s.currentType with
  | none => .error .failed
  | some _ =>
    if s.currentLevel ≠ .mfg ∧ s.currentLevel ≠ .model then .error .failed
    else do
      let p ← deref s.currentMfg
      let mfg ← s.mfgAt p
      let s ← s.modifyMfg p fun mfg =>
        .ok { mfg with model := mfg.model ++ [{ name := some string }] }
      return { s with currentModel := some (p, mfg.model.length), currentLevel := .model }

def status (s : Parser) (string : CStr) : Except Stop Parser :=
  match s.currentLevel with
  | .model => do
    let p ← deref s.currentModel
    s.modifyModel p fun model =>
      (statusOf string).elim (.error .failed) fun status => .ok { model with status := status }
  | _ => .error .failed

/-- `:interface`, `:scsi` and `:usbid` are ignored if there is no model. -/
def ofModel (s : Parser) (f : ModelEntry → ModelEntry) : Except Stop Parser :=
  match s.currentModel with
  | none => .ok s
  | some p => s.modifyModel p fun model => .ok (f model)

/-- The entity of the current level changes. -/
def change (s : Parser) (b : Nat) (c : Change) : Except Stop Parser :=
  match s.currentLevel with
  | .backend => s.modifyBackend b fun be => .ok (c.backend be)
  | .mfg => do s.modifyMfg (← deref s.currentMfg) fun mfg => .ok (c.mfg mfg)
  | .desc => do
    s.modifyType (← deref s.currentType) fun type => do
      return { type with desc := some (c.desc (← deref type.desc)) }
  | .model => do s.modifyModel (← deref s.currentModel) fun model => .ok (c.model model)

def url (s : Parser) (b : Nat) (string : CStr) : Except Stop Parser := s.change b (.addUrl string)

def comment (s : Parser) (b : Nat) (string : CStr) : Except Stop Parser :=
  s.change b (.setComment string)

def exec (s : Parser) (k : Keyword) : Except Stop Parser :=
  match k, s.currentBackend with
  | .backend name, _ => .ok (s.openBackend name)
  | _, none => .error .failed
  | .version string, some b => s.modifyBackend b fun be => .ok { be with version := some string }
  | .status string, some _ => s.status string
  | .new string, some b =>
    s.modifyBackend b fun be =>
      (newOf string).elim (.error .failed) fun new => .ok { be with new := new }
  | .manpage string, some b => s.modifyBackend b fun be => .ok { be with manpage := some string }
  | .devicetype string, some b => s.devicetype b string
  | .desc string, some _ => s.desc string
  | .mfg string, some _ => s.mfg string
  | .model string, some _ => s.model string
  | .interface string, some _ => s.ofModel fun model => { model with interface := some string }
  | .scsi vendor product kind, some _ => s.ofModel (ModelEntry.setScsi vendor product kind)
  | .usbid vendor product, some _ => s.ofModel (ModelEntry.setUsbid vendor product)
  | .url string, some b => s.url b string
  | .comment string, some b => s.comment b string

/-- A file begins; what is found out about the previous backend is only reported. -/
def openFile (s : Parser) : Parser :=
  { s with currentBackend := none, currentType := none, currentMfg := none, currentModel := none }

end Parser

/-! ### `read_files` -/

inductive Event
  | file
  | line (line : CStr)

def Parser.step (s : Parser) : Event → Except Stop Parser
  | .file => .ok s.openFile
  | .line line =>
    match parseLine line with
    | .ignored => .ok s
    | .keyword k => s.exec k
    | .unknown => .error .failed

/-- What is read of the files, which are their lines. -/
def eventsOf (files : List (List CStr)) : List Event :=
  files.flatMap fun lines => .file :: lines.map .line

/-- The list of the backends, if nothing fails. -/
def readFiles (files : List (List CStr)) : Except Stop (List BackendEntry) := do
  let s ← (eventsOf files).foldlM Parser.step {}
  if s.firstBackend = [] then .error .failed else return s.firstBackend

end SaneBackends.SaneDesc
