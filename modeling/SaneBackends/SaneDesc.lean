import SaneBackends.CNumbers

/-!
# The description files of `sane-desc`

What `sane-desc` keeps of the description files, and its lists of the models of a manufacturer.
A missing string is a null pointer, and a list of URLs is the list of their names.
-/

namespace SaneBackends.SaneDesc

inductive StatusEntry
  | unknown | unsupported | untested | minimal | basic | good | complete
  deriving DecidableEq

inductive DeviceType
  | typeUnknown | typeScanner | typeStillcam | typeVidcam | typeMeta | typeApi
  deriving DecidableEq

structure ModelEntry where
  name : Option CStr := none
  interface : Option CStr := none
  url : List CStr := []
  comment : Option CStr := none
  status : StatusEntry := .unknown
  usbVendorId : Option CStr := none
  usbProductId : Option CStr := none
  ignoreUsbId : Bool := false
  scsiVendorId : Option CStr := none
  scsiProductId : Option CStr := none
  scsiIsProcessor : Bool := false
  deriving DecidableEq

structure DescEntry where
  desc : Option CStr := none
  url : List CStr := []
  comment : Option CStr := none
  deriving DecidableEq

structure MfgEntry where
  name : Option CStr := none
  url : List CStr := []
  comment : Option CStr := none
  model : List ModelEntry := []
  deriving DecidableEq

structure TypeEntry where
  type : DeviceType := .typeUnknown
  desc : Option DescEntry := none
  mfg : List MfgEntry := []
  deriving DecidableEq

structure BackendEntry where
  name : Option CStr := none
  version : Option CStr := none
  manpage : Option CStr := none
  url : List CStr := []
  comment : Option CStr := none
  type : List TypeEntry := []
  new : Bool := false
  deriving DecidableEq

structure ModelRecord where
  name : Option CStr
  interface : Option CStr
  url : List CStr
  comment : Option CStr
  status : StatusEntry
  usbVendorId : Option CStr
  usbProductId : Option CStr
  scsiVendorId : Option CStr
  scsiProductId : Option CStr
  scsiIsProcessor : Bool
  be : BackendEntry
  deriving DecidableEq

/-! ### Comparing strings -/

def toUpper (b : SaneByte) : SaneByte := if 97 ≤ b.toNat ∧ b.toNat ≤ 122 then b - 32 else b

def atoi (s : CStr) : Int := longToInt ((strtol 10 s).getD 0)

/-- Characters are signed. -/
def charCompare (char1 char2 : SaneByte) : Int :=
  let char1 := (toUpper char1).toInt
  let char2 := (toUpper char2).toInt
  if char1 < char2 then -1 else if char1 > char2 then 1 else 0

def numCompare (numString1 numString2 : CStr) : Int :=
  let num1 := atoi numString1
  let num2 := atoi numString2
  if num1 < num2 then -1 else if num1 > num2 then 1 else 0

/-- The loop of `string_compare` and what follows it. -/
def compareChars : CStr → CStr → Int
  | a :: as, b :: bs =>
    if a ≠ 0 ∧ b ≠ 0 then
      let compare :=
        if isDigit a ∧ isDigit b then numCompare (a :: as) (b :: bs) else charCompare a b
      if compare ≠ 0 then compare else compareChars as bs
    else charCompare a b
  | string1, string2 => charCompare (string1.headD 0) (string2.headD 0)

def stringCompare : Option CStr → Option CStr → Int
  | none, none => 0
  | none, some _ => 1
  | some _, none => -1
  | some string1, some string2 => compareChars string1 string2

/-! ### The models of a manufacturer -/

def createModelRecord (model : ModelEntry) (be : BackendEntry) : ModelRecord where
  name := model.name
  status := model.status
  interface := model.interface
  url := model.url
  comment := model.comment
  usbVendorId := model.usbVendorId
  usbProductId := model.usbProductId
  scsiVendorId := model.scsiVendorId
  scsiProductId := model.scsiProductId
  scsiIsProcessor := model.scsiIsProcessor
  be := be

def calcPriority : StatusEntry → Nat
  | .untested => 1
  | .unsupported => 0
  | _ => 2

def updateModelRecordList (records : List ModelRecord) (model : ModelEntry) (be : BackendEntry) :
    List ModelRecord :=
  match records with
  | [] => [createModelRecord model be]
  | record :: rest =>
    let compare := stringCompare model.name record.name
    if compare ≤ 0 then
      if compare = 0 ∧ stringCompare model.interface record.interface = 0 ∧
          stringCompare model.usbVendorId record.usbVendorId = 0 ∧
          stringCompare model.usbProductId record.usbProductId = 0 then
        let newPriority := calcPriority model.status
        let oldPriority := calcPriority record.status
        if newPriority < oldPriority then record :: rest
        else if newPriority > oldPriority then createModelRecord model be :: rest
        else createModelRecord model be :: record :: rest
      else createModelRecord model be :: record :: rest
    else record :: updateModelRecordList rest model be

/-- Numbers count as numbers and letters without their case. -/
example : stringCompare (some (ascii ['A', '6', '0', '0'])) (some (ascii ['a', '1', '2', '0', '0']))
    = -1 ∧ stringCompare (some (ascii ['P', '1', 'x'])) (some (ascii ['p', '1', 'X'])) = 0 := by
  decide

end SaneBackends.SaneDesc
