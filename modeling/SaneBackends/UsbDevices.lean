import SaneBackends.SaneTypes
import SaneBackends.CStrings

/-!
# The device table of `sanei_usb`

`sanei_usb_init` keeps one entry for each device it has ever found and counts in
`missing` the scans since; `store_device` may put a new device into the place of one
that has been missing for two scans.  `sanei_usb_open` hands out the index of an entry
as the device number.
-/

namespace SaneBackends.SaneiUsb

/-! ### The types -/

/-- `sanei_usb_access_method_type` -/
inductive AccessMethod where
  | scannerDriver | libusb | usbcalls
deriving DecidableEq, Repr

/-- The libusb the file is compiled with (`HAVE_LIBUSB`, `HAVE_LIBUSB_1_0` or neither). -/
inductive UsbLibrary where
  | libusb | libusb10 | missing
deriving DecidableEq, Repr

structure Endpoint where
  bEndpointAddress : SaneByte
  bmAttributes : SaneByte
deriving DecidableEq, Repr

/-- A configuration: the endpoints of each alternate setting of each interface. -/
abbrev Config := List (List (List Endpoint))

structure Endpoints where
  bulkIn : SaneByte
  bulkOut : SaneByte
  isoIn : SaneByte
  isoOut : SaneByte
  intIn : SaneByte
  intOut : SaneByte
  controlIn : SaneByte
  controlOut : SaneByte
deriving DecidableEq, Repr

/-- What `sanei_usb_init` knows of a device it has found. -/
structure FoundDevice where
  method : AccessMethod
  devname : CStr
  vendor : Int
  product : Int
  interfaceNr : Nat
  luDevice : Nat
deriving DecidableEq, Repr

/-- `device_list_type`; an entry begins as what the scan has found.  A negative `fd` and
    a null handle are `none`. -/
structure Device extends FoundDevice where
  isOpen : Bool
  missing : Nat
  endpoints : Endpoints
  fd : Option Nat
  luHandle : Option Nat
deriving DecidableEq, Repr

def FoundDevice.identity (d : FoundDevice) : AccessMethod × CStr × Int × Int :=
  (d.method, d.devname, d.vendor, d.product)

def Device.handle (d : Device) : Option Nat :=
  match d.method with
  | .scannerDriver => d.fd
  | .libusb => d.luHandle
  | .usbcalls => none

/-- `memset (&device, 0, sizeof (device))`, then the fields of the device found. -/
def FoundDevice.entry (d : FoundDevice) : Device where
  toFoundDevice := d
  isOpen := false
  missing := 0
  endpoints := ⟨0, 0, 0, 0, 0, 0, 0, 0⟩
  fd := none
  luHandle := none

/-! ### Scanning -/

def MAX_DEVICES : Nat := 100

inductive Place where
  | known (i : Nat)
  | recycled (pos : Nat)
  | append
deriving DecidableEq, Repr

/-- The loop of `store_device`: an equal device, or else the last one missing for two
    scans. -/
def findPlace (device : FoundDevice) : List Device → Nat → Option Nat → Place
  | [], _, none => .append
  | [], _, some pos => .recycled pos
  | d :: ds, i, pos =>
      if d.identity = device.identity then .known i
      else findPlace device ds (i + 1) (if d.missing ≥ 2 then some i else pos)

def storeDevice (devices : List Device) (device : FoundDevice) : List Device :=
  match findPlace device devices 0 none with
  | .known i => devices.modify i fun d => { d with luDevice := device.luDevice, missing := 0 }
  | .recycled pos => devices.set pos device.entry
  | .append =>
      if devices.length ≥ MAX_DEVICES then devices else devices ++ [device.entry]

def Device.miss (d : Device) : Device := { d with missing := d.missing + 1 }

/-- `sanei_usb_init`, with the devices it finds in their order. -/
def saneiUsbInit (found : List FoundDevice) (devices : List Device) : List Device :=
  found.foldl storeDevice (devices.map Device.miss)

/-! ### Opening -/

/-- The handles the operating system has open for the program; each is given out once. -/
structure Handles where
  opened : List Nat
  next : Nat
deriving DecidableEq, Repr

def Handles.open (hs : Handles) : Handles := ⟨hs.next :: hs.opened, hs.next + 1⟩

def Handles.close (hs : Handles) (h : Option Nat) : Handles :=
  { hs with opened := hs.opened.filter fun h' => some h' ≠ h }

inductive UsbError where
  | access | busy | noMem | other
deriving DecidableEq, Repr

/-- What the operating system answers to the calls of one `sanei_usb_open`; `none` is
    success. -/
structure Answers where
  /-- `usb_open`, `libusb_open` or `open` -/
  openError : Option UsbError
  /-- `dev->config` of libusb, the result of `libusb_get_configuration` (`none` for an
      error) otherwise -/
  configuration : Option Nat
  /-- `libusb_get_device_descriptor` succeeds -/
  deviceDescriptor : Bool
  /-- `libusb_get_config_descriptor` succeeds for the first configuration -/
  configDescriptor : Bool
  /-- `usb_set_configuration` -/
  setConfiguration : Option UsbError
  /-- `usb_claim_interface` -/
  claimInterface : Option UsbError
  /-- the configurations, `none` where the descriptor cannot be read -/
  configs : List (Option Config)
deriving DecidableEq, Repr

def keepFirst (old new : SaneByte) : SaneByte := if old ≠ 0 then old else new

/-- "save the endpoints we need later" -/
def Endpoints.save (es : Endpoints) (e : Endpoint) : Endpoints :=
  match e.bmAttributes.toNat % 4, e.bEndpointAddress.getLsbD 7 with
  | 3, true => { es with intIn := keepFirst es.intIn e.bEndpointAddress }
  | 3, false => { es with intOut := keepFirst es.intOut e.bEndpointAddress }
  | 2, true => { es with bulkIn := keepFirst es.bulkIn e.bEndpointAddress }
  | 2, false => { es with bulkOut := keepFirst es.bulkOut e.bEndpointAddress }
  | 1, true => { es with isoIn := keepFirst es.isoIn e.bEndpointAddress }
  | 1, false => { es with isoOut := keepFirst es.isoOut e.bEndpointAddress }
  | _, true => { es with controlIn := keepFirst es.controlIn e.bEndpointAddress }
  | _, false => { es with controlOut := keepFirst es.controlOut e.bEndpointAddress }

/-- The loops over the interfaces, their alternate settings and the endpoints of
    configuration `c`.  Of the first one only the scanner's interface counts. -/
def Endpoints.saveConfig (interfaceNr : Nat) (es : Endpoints) (c : Option Config × Nat) :
    Endpoints :=
  (c.1.getD []).zipIdx.foldl (fun es (settings, i) =>
    if c.2 = 0 ∧ i ≠ interfaceNr then es else settings.flatten.foldl Endpoints.save es) es

def Device.saveEndpoints (d : Device) (configs : List (Option Config)) : Device :=
  { d with endpoints := configs.zipIdx.foldl (Endpoints.saveConfig d.interfaceNr) d.endpoints }

def accessStatus : UsbError → SaneStatus
  | .access => .accessDenied
  | _ => .inval

def openStatus : UsbError → SaneStatus
  | .access => .accessDenied
  | .busy => .deviceBusy
  | _ => .inval

def openStatus10 : UsbError → SaneStatus
  | .noMem => .noMem
  | e => openStatus e

def claimInterface (os : Answers) (d : Device) (hs : Handles) : SaneStatus × Device × Handles :=
  match os.claimInterface with
  | some err => (openStatus err, d, hs.close d.luHandle)
  | none => (.good, d.saveEndpoints os.configs, hs)

/-- Setting the configuration; that the device is busy is ignored. -/
def setConfiguration (os : Answers) (d : Device) (hs : Handles) :
    SaneStatus × Device × Handles :=
  match os.setConfiguration with
  | none | some .busy => claimInterface os d hs
  | some err => (accessStatus err, d, hs.close d.luHandle)

def openLibusb (os : Answers) (d : Device) (hs : Handles) : SaneStatus × Device × Handles :=
  match os.openError with
  | some err => (openStatus err, { d with luHandle := none }, hs)
  | none =>
      let d := { d with luHandle := some hs.next }
      if os.configuration = none then (.inval, d, hs.open)
      else setConfiguration os d hs.open

def openLibusb10 (os : Answers) (d : Device) (hs : Handles) : SaneStatus × Device × Handles :=
  match os.openError with
  | some err => (openStatus10 err, d, hs)
  | none =>
      let d := { d with luHandle := some hs.next }
      match os.configuration with
      | none | some 0 => (.inval, d, hs.open)
      | some _ =>
          if !os.deviceDescriptor then (.inval, d, hs.open)
          else if !os.configDescriptor then (.inval, d, hs.open)
          else setConfiguration os d hs.open

def openScannerDriver (os : Answers) (d : Device) (hs : Handles) :
    SaneStatus × Device × Handles :=
  match os.openError with
  | some err => (accessStatus err, { d with fd := none }, hs)
  | none => (.good, { d with fd := some hs.next }, hs.open)

def openDevice (lib : UsbLibrary) (os : Answers) (d : Device) (hs : Handles) :
    SaneStatus × Device × Handles :=
  match d.method, lib with
  | .libusb, .libusb => openLibusb os d hs
  | .libusb, .libusb10 => openLibusb10 os d hs
  | .libusb, .missing => (.unsupported, d, hs)
  | .scannerDriver, _ => openScannerDriver os d hs
  | .usbcalls, _ => (.unsupported, d, hs)

structure UsbState where
  devices : List Device
  handles : Handles
deriving DecidableEq, Repr

def UsbState.initial : UsbState := ⟨[], [], 0⟩

/-- The loop of `sanei_usb_open`: the first device of the name that is not missing. -/
def UsbState.lookup (s : UsbState) (devname : CStr) : Option Nat :=
  s.devices.findIdx? fun d => d.missing = 0 ∧ d.devname = devname

/-- `sanei_usb_open`: the status, the device number when it is good, the new state. -/
def saneiUsbOpen (lib : UsbLibrary) (devname : CStr) (os : Answers) (s : UsbState) :
    SaneStatus × Option Nat × UsbState :=
  match s.lookup devname with
  | none => (.inval, none, s)
  | some devcount =>
      match s.devices[devcount]? with
      | none => (.inval, none, s)
      | some d =>
          if d.isOpen then (.inval, none, s)
          else
            match openDevice lib os d s.handles with
            | (.good, d, hs) =>
                (.good, some devcount, ⟨s.devices.set devcount { d with isOpen := true }, hs⟩)
            | (status, d, hs) => (status, none, ⟨s.devices.set devcount d, hs⟩)

def saneiUsbClose (dn : Int) (s : UsbState) : UsbState :=
  if dn ≥ s.devices.length ∨ dn < 0 then s
  else
    match s.devices[dn.toNat]? with
    | none => s
    | some d =>
        if !d.isOpen then s
        else ⟨s.devices.set dn.toNat { d with isOpen := false }, s.handles.close d.handle⟩

end SaneBackends.SaneiUsb
