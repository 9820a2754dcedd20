import SaneBackends.CStrings
import SaneBackends.LabelledRun
import Mathlib.Data.List.Basic

/-!
# The dll backend

The backend that loads the others: its list of backends, which grows when a name is
opened that is not in it, and the table of aliases, which gives a device another name or
hides it.  The backends are code outside: what they answer in a call is a parameter of the
call.
-/

namespace SaneBackends

/-! ### Names -/

abbrev colon : SaneByte := 0x3a

/-- What is before the first of the bytes that are looked for, and what is behind it. -/
def cutAt (p : SaneByte → Bool) : CStr → Option (CStr × CStr)
  | [] => none
  | b :: bs =>
      if p b then some ([], bs) else (cutAt p bs).map fun (front, back) => (b :: front, back)

/-- A blank or a tab. -/
def isBlank (b : SaneByte) : Bool := b == 0x20 || b == 0x09

/-- `sanei_config_skip_whitespace`. -/
def skipWhitespace (s : CStr) : CStr := s.dropWhile isSpace

/-! ### Aliases -/

/-- A device without a new name is hidden. -/
structure DllAlias where
  oldname : CStr
  newname : Option CStr
deriving DecidableEq, Repr

/-- The new name in the line of an alias, which may be quoted, and what is behind it. -/
def aliasNewname (line : CStr) : Option (CStr × CStr) :=
  match skipWhitespace line with
  | [] => none
  | b :: rest => if b = 0x22 then cutAt (· == 0x22) rest else cutAt isBlank (b :: rest)

def aliasOldname (line : CStr) : Option CStr :=
  match skipWhitespace line with
  | [] => none
  | b :: rest => some ((b :: rest).takeWhile (!isBlank ·))

/-- The alias that a line of the configuration is for, if it is for one. -/
def parseAlias (line : CStr) : Option DllAlias := do
  let (command, line) ← cutAt isBlank ((skipWhitespace line).takeWhile (· != 0x23))
  if command = ascii ['a', 'l', 'i', 'a', 's'] then
    let (newname, line) ← aliasNewname line
    let oldname ← aliasOldname line
    pure ⟨oldname, some newname⟩
  else if command = ascii ['h', 'i', 'd', 'e'] then
    let oldname ← aliasOldname line
    pure ⟨oldname, none⟩
  else none

/-- The alias is for this device: its old name is the name of the backend, a colon and the
    name that the backend has for the device. -/
def DllAlias.matches (a : DllAlias) (be dev : CStr) : Bool :=
  decide (be.length < a.oldname.length) && a.oldname.take be.length == be &&
    a.oldname[be.length]? == some colon && a.oldname.drop (be.length + 1) == dev

/-! ### Backends -/

/-- The operations of a backend that are called here. -/
inductive BackendOp where
  | init | getDevs | openDevice
deriving DecidableEq, Repr

/-- `op` are the operations that have been found; another one is `op_unsupported`. -/
structure DllBackend where
  name : CStr
  loaded : Bool
  inited : Bool
  op : List BackendOp
deriving DecidableEq, Repr

structure DllDevice where
  name : CStr
  vendor : SaneString
  model : SaneString
  type : SaneString
deriving DecidableEq, Repr

/-- How the search for the code of a backend ends. -/
inductive LoadAnswer where
  | found (op : List BackendOp)
  | noMem
  | inval
deriving DecidableEq, Repr

/-- What the code of the backends answers. -/
structure BackendCode where
  load : CStr → LoadAnswer
  init : CStr → SaneStatus × SaneWord
  getDevices : CStr → Bool → SaneStatus × Option (List DllDevice)
  openDevice : CStr → CStr → SaneStatus

/-- Which allocations succeed: of a `struct backend`, its name, a `struct meta_scanner` or a
    `struct alias`. -/
structure DllMemory where
  backend : Bool
  name : Bool
  scanner : Bool
  aliasEntry : Bool
deriving DecidableEq, Repr

abbrev SANE_CURRENT_MAJOR : SaneWord := 1

def saneVersionMajor (code : SaneWord) : SaneWord := (code >>> 24) &&& 0xff

/-- The backend counts as loaded whether or not its code has been found. -/
def loadBackend (code : BackendCode) (be : DllBackend) : SaneStatus × DllBackend :=
  match code.load be.name with
  | .found op => (.good, { be with loaded := true, op := op })
  | .noMem => (.noMem, { be with loaded := true, op := [] })
  | .inval => (.inval, { be with loaded := true, op := [] })

def loadOnce (code : BackendCode) (be : DllBackend) : SaneStatus × DllBackend :=
  if be.loaded then (.good, be) else loadBackend code be

/-- The status and the version that the init function of the backend gives. -/
def initAnswer (code : BackendCode) (be : DllBackend) : SaneStatus × SaneWord :=
  if .init ∈ be.op then code.init be.name else (.unsupported, 0)

def callInit (code : BackendCode) (be : DllBackend) : SaneStatus × DllBackend :=
  if (initAnswer code be).1 ≠ .good then ((initAnswer code be).1, be)
  else if saneVersionMajor (initAnswer code be).2 ≠ SANE_CURRENT_MAJOR then (.inval, be)
  else (.good, { be with inited := true })

/-- `init`. -/
def initBackend (code : BackendCode) (be : DllBackend) : SaneStatus × DllBackend :=
  if (loadOnce code be).1 ≠ .good then loadOnce code be else callInit code (loadOnce code be).2

/-- A backend is initialised unless it has been. -/
def ensureInited (code : BackendCode) (be : DllBackend) : SaneStatus × DllBackend :=
  if be.inited then (.good, be) else initBackend code be

abbrev dllName : CStr := ascii ['d', 'l', 'l']

/-- `add_backend`: the status, where the backend is in the list if `*bep` has been set, and
    the list, at the front of which it has been put. -/
def addBackend (memory : DllMemory) (name : CStr) (backends : List DllBackend) :
    SaneStatus × Option Nat × List DllBackend :=
  if name = dllName then (.good, none, backends)
  else
    match backends.find? (·.name == name) with
    | some be => (.good, some 0, be :: backends.eraseP (·.name == name))
    | none =>
        if !memory.backend then (.noMem, none, backends)
        else if !memory.name then (.noMem, none, backends)
        else (.good, some 0, ⟨name, false, false, []⟩ :: backends)

/-! ### The calls -/

/-- `first_backend` and `first_alias`. -/
structure DllState where
  backends : List DllBackend
  aliases : List DllAlias
deriving DecidableEq, Repr

/-- A device that is listed: the backend it comes from, what this has told about it and what
    is told to the caller. -/
structure DllEntry where
  backend : CStr
  device : DllDevice
  listed : DllDevice
deriving DecidableEq, Repr

def listDevice (aliases : List DllAlias) (be : CStr) (dev : DllDevice) : Option DllEntry :=
  match aliases.find? (·.matches be dev.name) with
  | some a => a.newname.map fun newname => ⟨be, dev, { dev with name := newname }⟩
  | none => some ⟨be, dev, { dev with name := be ++ colon :: dev.name }⟩

/-- What a backend tells, with the names that are told to the caller. -/
def listDevices (code : BackendCode) (localOnly : Bool) (aliases : List DllAlias)
    (be : DllBackend) : List DllEntry :=
  let answer :=
    if .getDevs ∈ be.op then code.getDevices be.name localOnly else (.unsupported, none)
  match answer with
  | (.good, some devices) => devices.filterMap (listDevice aliases be.name)
  | _ => []

/-- The turn of `sane_get_devices` for one backend. -/
def backendDevices (code : BackendCode) (localOnly : Bool) (aliases : List DllAlias)
    (be : DllBackend) : List DllEntry × DllBackend :=
  let inited := ensureInited code be
  if inited.1 ≠ .good then ([], inited.2)
  else (listDevices code localOnly aliases inited.2, inited.2)

/-- `sane_get_devices`. -/
def dllGetDevices (code : BackendCode) (localOnly : Bool) (s : DllState) :
    List DllEntry × DllState :=
  let visited := s.backends.map (backendDevices code localOnly s.aliases)
  (visited.flatMap (·.1), { s with backends := visited.map (·.2) })

/-- The name after the aliases. -/
def resolveName (aliases : List DllAlias) (fullName : CStr) : CStr :=
  match aliases.find? (·.newname == some fullName) with
  | some a => a.oldname
  | none => fullName

/-- The name of the backend and its name for the device; without a colon the latter is empty. -/
def splitName (fullName : CStr) : CStr × CStr :=
  (cutAt (· == colon) fullName).getD (fullName, [])

/-- Where the backend of a name is; no name means the first one. -/
def searchBackend (backends : List DllBackend) (name : CStr) : Option Nat :=
  if name = [] then if backends = [] then none else some 0
  else backends.findIdx? (·.name == name)

/-- The backend is searched and, if it is not there, added. -/
def locateBackend (memory : DllMemory) (name : CStr) (backends : List DllBackend) :
    SaneStatus × Option Nat × List DllBackend :=
  match searchBackend backends name with
  | some i => (.good, some i, backends)
  | none => addBackend memory name backends

/-- The backend entry that the code follows is the null pointer. -/
inductive DllFault where
  | missingBackend
deriving DecidableEq, Repr

/-- What `sane_open` returns, and which backend it has called with which name. -/
structure DllOpened where
  status : SaneStatus
  dispatched : Option (DllBackend × CStr)
deriving DecidableEq, Repr

/-- The entry has been found: it is initialised and called. -/
def callOpen (code : BackendCode) (memory : DllMemory) (be : DllBackend) (devName : CStr) :
    DllOpened × DllBackend :=
  let inited := ensureInited code be
  if inited.1 ≠ .good then (⟨inited.1, none⟩, inited.2)
  else
    let status :=
      if .openDevice ∈ inited.2.op then code.openDevice inited.2.name devName else .unsupported
    let status := if status = .good ∧ !memory.scanner then .noMem else status
    (⟨status, some (inited.2, devName)⟩, inited.2)

/-- `sane_open`. -/
def dllOpen (code : BackendCode) (memory : DllMemory) (fullName : CStr) (s : DllState) :
    Except DllFault (DllOpened × DllState) :=
  let names := splitName (resolveName s.aliases fullName)
  let located := locateBackend memory names.1 s.backends
  if located.1 ≠ .good then .ok (⟨located.1, none⟩, { s with backends := located.2.2 })
  else
    match located.2.1.bind fun i => located.2.2[i]?.map fun be => (i, be) with
    | none => .error .missingBackend
    | some (i, be) =>
        let called := callOpen code memory be names.2
        .ok (called.1, { s with backends := located.2.2.set i called.2 })

/-! ### Runs -/

/-- What is done to the state: lines of the configuration are read, and the calls. -/
inductive DllOp where
  | addBackend (memory : DllMemory) (name : CStr)
  | addAlias (memory : DllMemory) (line : CStr)
  | getDevices (code : BackendCode) (localOnly : Bool)
  | openDevice (code : BackendCode) (memory : DllMemory) (fullName : CStr)

def addAlias (memory : DllMemory) (line : CStr) (s : DllState) : DllState :=
  match parseAlias line with
  | some a => if memory.aliasEntry then { s with aliases := a :: s.aliases } else s
  | none => s

def DllOp.exec (s : DllState) : DllOp → Option DllState
  | .addBackend memory name =>
      some { s with backends := (SaneBackends.addBackend memory name s.backends).2.2 }
  | .addAlias memory line => some (SaneBackends.addAlias memory line s)
  | .getDevices code localOnly => some (dllGetDevices code localOnly s).2
  | .openDevice code memory fullName =>
      match dllOpen code memory fullName s with
      | .ok (_, s) => some s
      | .error _ => none

/-- The operations of a caller between `sane_init` and `sane_exit`. -/
def DllOp.IsCall : DllOp → Prop
  | .getDevices _ _ => True
  | .openDevice _ _ _ => True
  | _ => False

def DllState.initial (preloaded : List CStr) : DllState :=
  ⟨preloaded.map fun name => ⟨name, true, false, [.init, .getDevs, .openDevice]⟩, []⟩

abbrev DllRun (s₀ : DllState) : List DllOp → DllState → Prop :=
  LabelledRun.Run (fun s op s' => op.exec s = some s') s₀

end SaneBackends
