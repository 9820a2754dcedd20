import SaneBackends.UsbDevices
import SaneBackends.LabelledRun

/-!
# What the device table of `sanei_usb` keeps

Any two entries differ in method, name or ids, and every open entry has a handle of its
own that the system has open.  An open device keeps its number, unless a scan recycles
the entry: `store_device` looks at `missing` only, not at `open`.  A failed
`sanei_usb_open` leaves nothing open, unless it fails between opening the device and
setting its configuration.
-/

namespace SaneBackends.SaneiUsb

open LabelledRun

variable {lib : UsbLibrary} {devices : List Device} {device : FoundDevice} {s s' : UsbState}

/-! ### Storing one device -/

theorem findPlace_cases (device : FoundDevice) (ds : List Device) (i : Nat) (pos : Option Nat) :
    (∃ k, ∃ h : k < ds.length, findPlace device ds i pos = .known (i + k) ∧
        ds[k].identity = device.identity) ∨
      (∀ d ∈ ds, d.identity ≠ device.identity) ∧
        ((∃ k < ds.length, findPlace device ds i pos = .recycled (i + k)) ∨
          findPlace device ds i pos = pos.elim .append .recycled) := by
  induction ds generalizing i pos with
  | nil =>
    right
    refine ⟨fun d hd => absurd hd List.not_mem_nil, .inr ?_⟩
    cases pos <;> rfl
  | cons d ds ih =>
    by_cases hd : d.identity = device.identity
    · left
      exact ⟨0, Nat.zero_lt_succ _, by rw [findPlace, if_pos hd, Nat.add_zero], hd⟩
    · have hstep : findPlace device (d :: ds) i pos =
          findPlace device ds (i + 1) (if d.missing ≥ 2 then some i else pos) := by
        rw [findPlace, if_neg hd]
      rcases ih (i + 1) (if d.missing ≥ 2 then some i else pos) with
        ⟨k, hk, heq, hid⟩ | ⟨hne, hplace⟩
      · left
        refine ⟨k + 1, Nat.succ_lt_succ hk, ?_, hid⟩
        rw [hstep, heq, Nat.add_assoc, Nat.add_comm 1 k]
      · right
        refine ⟨List.forall_mem_cons.mpr ⟨hd, hne⟩, ?_⟩
        rw [hstep]
        rcases hplace with ⟨k, hk, heq⟩ | heq
        · left
          refine ⟨k + 1, Nat.succ_lt_succ hk, ?_⟩
          rw [heq, Nat.add_assoc, Nat.add_comm 1 k]
        · rw [heq]
          by_cases hmiss : d.missing ≥ 2
          · left
            exact ⟨0, Nat.zero_lt_succ _, by rw [if_pos hmiss]; rfl⟩
          · right
            rw [if_neg hmiss]

/-- All that `store_device` can do: an equal entry is found again, an entry is recycled,
    there is no room, or the table grows. -/
theorem storeDevice_cases (devices : List Device) (device : FoundDevice) :
    (∃ i d, devices[i]? = some d ∧ d.identity = device.identity ∧
        findPlace device devices 0 none = .known i ∧ storeDevice devices device =
          devices.set i { d with luDevice := device.luDevice, missing := 0 }) ∨
      (∀ d ∈ devices, d.identity ≠ device.identity) ∧
        ((∃ pos d, devices[pos]? = some d ∧ findPlace device devices 0 none = .recycled pos ∧
            storeDevice devices device = devices.set pos device.entry) ∨
          findPlace device devices 0 none = .append ∧
            (storeDevice devices device = devices ∨ devices.length < MAX_DEVICES ∧
              storeDevice devices device = devices ++ [device.entry])) := by
  rcases findPlace_cases device devices 0 none with ⟨k, hk, heq, hid⟩ | ⟨hne, ⟨k, hk, heq⟩ | heq⟩
  · left
    rw [Nat.zero_add] at heq
    refine ⟨k, devices[k], List.getElem?_eq_getElem hk, hid, heq, ?_⟩
    rw [storeDevice, heq]
    refine List.ext_getElem? fun j => ?_
    rw [List.getElem?_set]
    by_cases hj : k = j
    · subst hj
      rw [if_pos rfl, if_pos hk, List.getElem?_modify_eq, List.getElem?_eq_getElem hk]
      rfl
    · rw [if_neg hj, List.getElem?_modify_ne _ _ hj]
  · right
    rw [Nat.zero_add] at heq
    refine ⟨hne, .inl ⟨k, devices[k], List.getElem?_eq_getElem hk, heq, ?_⟩⟩
    rw [storeDevice, heq]
  · right
    refine ⟨hne, .inr ⟨heq, ?_⟩⟩
    rw [storeDevice, heq]
    by_cases hfull : devices.length ≥ MAX_DEVICES
    · left
      exact if_pos hfull
    · right
      exact ⟨Nat.lt_of_not_ge hfull, if_neg hfull⟩

/-- The entries are those of different devices. -/
def Distinct (devices : List Device) : Prop := (devices.map (·.identity)).Nodup

/-- Storing a device keeps the table within its bound. -/
theorem length_storeDevice_le (h : devices.length ≤ MAX_DEVICES) :
    (storeDevice devices device).length ≤ MAX_DEVICES := by
  rcases storeDevice_cases devices device with
    ⟨i, d, -, -, -, heq⟩ | ⟨-, ⟨pos, d, -, -, heq⟩ | ⟨-, heq | ⟨hroom, heq⟩⟩⟩
  · rwa [heq, List.length_set]
  · rwa [heq, List.length_set]
  · rwa [heq]
  · rw [heq, List.length_append]
    exact hroom

/-- Changing an entry of the table, but not what it denotes. -/
theorem distinct_set {i : Nat} {d e : Device} (h : Distinct devices) (hi : devices[i]? = some d)
    (hid : e.identity = d.identity) : Distinct (devices.set i e) := by
  obtain ⟨hlt, rfl⟩ := List.getElem?_eq_some_iff.mp hi
  have hlt' : i < (devices.map (·.identity)).length := by rwa [List.length_map]
  have hself := List.set_getElem_self hlt'
  rw [List.getElem_map] at hself
  rw [Distinct, List.map_set, hid, hself]
  exact h

theorem distinct_storeDevice (h : Distinct devices) : Distinct (storeDevice devices device) := by
  have hfresh : (∀ d ∈ devices, d.identity ≠ device.identity) →
      device.identity ∉ devices.map (·.identity) := by
    intro hne hmem
    obtain ⟨d, hd, hid⟩ := List.mem_map.mp hmem
    exact hne d hd hid
  rcases storeDevice_cases devices device with
    ⟨i, d, hi, -, -, heq⟩ | ⟨hne, ⟨pos, d, -, -, heq⟩ | ⟨-, heq | ⟨-, heq⟩⟩⟩
  · rw [heq]
    exact distinct_set h hi rfl
  · rw [Distinct, heq, List.map_set]
    exact List.Nodup.set h (hfresh hne)
  · rwa [heq]
  · rw [Distinct, heq, List.map_append, List.map_singleton]
    refine List.nodup_append.mpr ⟨h, List.nodup_singleton _, fun a ha b hb hab => ?_⟩
    rw [List.mem_singleton] at hb
    exact hfresh hne (hb ▸ hab ▸ ha)

/-! ### What an open entry keeps -/

/-- `d'` is still open and denotes the same device by the same handle as `d`. -/
def Kept (d d' : Device) : Prop :=
  d'.isOpen = true ∧ d'.identity = d.identity ∧ d'.handle = d.handle

theorem Kept.refl {d : Device} (h : d.isOpen = true) : Kept d d := ⟨h, rfl, rfl⟩

theorem Kept.trans {d d' d'' : Device} (h : Kept d d') (h' : Kept d' d'') : Kept d d'' :=
  ⟨h'.1, h'.2.1.trans h.2.1, h'.2.2.trans h.2.2⟩

/-- Every open entry of `after` was open in `before`. -/
def OpenFrom (before after : List Device) : Prop :=
  ∀ (i : Nat) d', after[i]? = some d' → d'.isOpen = true →
    ∃ d, before[i]? = some d ∧ d.isOpen = true ∧ Kept d d'

/-- Every open entry of `before` is open in `after`. -/
def OpenKept (before after : List Device) : Prop :=
  ∀ (i : Nat) d, before[i]? = some d → d.isOpen = true → ∃ d', after[i]? = some d' ∧ Kept d d'

theorem OpenFrom.trans {l l' l'' : List Device} (h : OpenFrom l l') (h' : OpenFrom l' l'') :
    OpenFrom l l'' := by
  intro i d'' hd'' hopen
  obtain ⟨d', hd', hopen', hk'⟩ := h' i d'' hd'' hopen
  obtain ⟨d, hd, hopen'', hk⟩ := h i d' hd' hopen'
  exact ⟨d, hd, hopen'', hk.trans hk'⟩

theorem OpenKept.trans {l l' l'' : List Device} (h : OpenKept l l') (h' : OpenKept l' l'') :
    OpenKept l l'' := by
  intro i d hd hopen
  obtain ⟨d', hd', hk⟩ := h i d hd hopen
  obtain ⟨d'', hd'', hk'⟩ := h' i d' hd' hk.1
  exact ⟨d'', hd'', hk.trans hk'⟩

theorem openFrom_map_miss : OpenFrom devices (devices.map Device.miss) := by
  intro i d' hd' hopen
  rw [List.getElem?_map] at hd'
  obtain ⟨d, hd, rfl⟩ := Option.map_eq_some_iff.mp hd'
  exact ⟨d, hd, hopen, hopen, rfl, rfl⟩

theorem openKept_map_miss : OpenKept devices (devices.map Device.miss) := by
  intro i d hd hopen
  exact ⟨d.miss, by rw [List.getElem?_map, hd]; rfl, hopen, rfl, rfl⟩

theorem openFrom_storeDevice : OpenFrom devices (storeDevice devices device) := by
  intro i d' hd' hopen
  rcases storeDevice_cases devices device with
    ⟨j, d, hj, -, -, heq⟩ | ⟨-, ⟨pos, d, hpos, -, heq⟩ | ⟨-, heq | ⟨-, heq⟩⟩⟩
  · rw [heq, List.getElem?_set] at hd'
    split_ifs at hd' with hji hlt
    · cases hd'
      exact ⟨d, hji ▸ hj, hopen, hopen, rfl, rfl⟩
    · exact ⟨d', hd', hopen, .refl hopen⟩
  · rw [heq, List.getElem?_set] at hd'
    split_ifs at hd' with hji hlt
    · cases hd'
      exact absurd hopen (by simp [FoundDevice.entry])
    · exact ⟨d', hd', hopen, .refl hopen⟩
  · rw [heq] at hd'
    exact ⟨d', hd', hopen, .refl hopen⟩
  · rw [heq, List.getElem?_append] at hd'
    split_ifs at hd' with hlt
    · exact ⟨d', hd', hopen, .refl hopen⟩
    · have hd := List.mem_singleton.mp (List.mem_of_getElem? hd')
      exact absurd hopen (by simp [hd, FoundDevice.entry])

/-- The place `store_device` recycles, if any, is that of a closed device. -/
def RecyclesClosed (devices : List Device) (device : FoundDevice) : Prop :=
  ∀ pos d, findPlace device devices 0 none = .recycled pos → devices[pos]? = some d →
    d.isOpen = false

theorem openKept_storeDevice_iff :
    OpenKept devices (storeDevice devices device) ↔ RecyclesClosed devices device := by
  constructor
  · intro h pos d hplace hd
    by_contra hopen
    rw [Bool.not_eq_false] at hopen
    obtain ⟨d', hd', hk⟩ := h pos d hd hopen
    have hlt := (List.getElem?_eq_some_iff.mp hd).1
    rw [storeDevice, hplace, List.getElem?_set_self hlt] at hd'
    cases hd'
    exact absurd hk.1 (by simp [FoundDevice.entry])
  · intro h i d hd hopen
    have hlt := (List.getElem?_eq_some_iff.mp hd).1
    rcases storeDevice_cases devices device with
      ⟨j, e, hj, -, -, heq⟩ | ⟨-, ⟨pos, e, hpos, hplace, heq⟩ | ⟨-, heq | ⟨-, heq⟩⟩⟩
    · rw [heq, List.getElem?_set]
      by_cases hji : j = i
      · subst hji
        rw [hd] at hj
        cases hj
        exact ⟨{ d with luDevice := device.luDevice, missing := 0 },
          by rw [if_pos rfl, if_pos hlt], hopen, rfl, rfl⟩
      · exact ⟨d, by rw [if_neg hji, hd], .refl hopen⟩
    · rw [heq, List.getElem?_set]
      by_cases hji : pos = i
      · subst hji
        exact absurd hopen (by simp [h pos d hplace hd])
      · exact ⟨d, by rw [if_neg hji, hd], .refl hopen⟩
    · rw [heq]
      exact ⟨d, hd, .refl hopen⟩
    · rw [heq]
      exact ⟨d, by rw [List.getElem?_append_left hlt, hd], .refl hopen⟩

/-! ### A scan -/

/-- No scan step of a list of devices recycles the entry of an open device. -/
def ScanRecyclesClosed : List Device → List FoundDevice → Prop
  | _, [] => True
  | devices, f :: fs => RecyclesClosed devices f ∧ ScanRecyclesClosed (storeDevice devices f) fs

theorem openFrom_foldl (found : List FoundDevice) (devices : List Device) :
    OpenFrom devices (found.foldl storeDevice devices) := by
  induction found generalizing devices with
  | nil => exact fun i d hd hopen => ⟨d, hd, hopen, .refl hopen⟩
  | cons f fs ih => exact (openFrom_storeDevice).trans (ih _)

theorem openKept_foldl_iff (found : List FoundDevice) (devices : List Device) :
    OpenKept devices (found.foldl storeDevice devices) ↔ ScanRecyclesClosed devices found := by
  induction found generalizing devices with
  | nil => exact ⟨fun _ => trivial, fun _ i d hd hopen => ⟨d, hd, .refl hopen⟩⟩
  | cons f fs ih =>
    constructor
    · intro h
      have hfirst : OpenKept devices (storeDevice devices f) := by
        intro i d hd hopen
        -- what is open at the end was open after the first device already
        obtain ⟨d'', hd'', hk⟩ := h i d hd hopen
        obtain ⟨d', hd', hopen', hk'⟩ := openFrom_foldl fs _ i d'' hd'' hk.1
        exact ⟨d', hd', hopen', hk'.2.1.symm.trans hk.2.1, hk'.2.2.symm.trans hk.2.2⟩
      refine ⟨(openKept_storeDevice_iff).mp hfirst, (ih _).mp ?_⟩
      intro i d' hd' hopen'
      obtain ⟨d, hd, hopen, hk⟩ := openFrom_storeDevice i d' hd' hopen'
      obtain ⟨d'', hd'', hk'⟩ := h i d hd hopen
      exact ⟨d'', hd'', hk'.1, hk'.2.1.trans hk.2.1.symm, hk'.2.2.trans hk.2.2.symm⟩
    · intro h
      exact ((openKept_storeDevice_iff).mpr h.1).trans ((ih _).mpr h.2)

theorem length_saneiUsbInit_le (found : List FoundDevice) (h : devices.length ≤ MAX_DEVICES) :
    (saneiUsbInit found devices).length ≤ MAX_DEVICES := by
  rw [saneiUsbInit]
  refine List.foldlRecOn found storeDevice (motive := fun l => l.length ≤ MAX_DEVICES) ?_ ?_
  · rwa [List.length_map]
  · exact fun l hl f _ => length_storeDevice_le hl

theorem distinct_saneiUsbInit (found : List FoundDevice) (h : Distinct devices) :
    Distinct (saneiUsbInit found devices) := by
  rw [saneiUsbInit]
  refine List.foldlRecOn found storeDevice (motive := Distinct) ?_ ?_
  · rw [Distinct, List.map_map]
    exact h
  · exact fun l hl f _ => distinct_storeDevice hl

theorem openFrom_saneiUsbInit (found : List FoundDevice) (devices : List Device) :
    OpenFrom devices (saneiUsbInit found devices) :=
  (openFrom_map_miss).trans (openFrom_foldl found _)

theorem openKept_saneiUsbInit_iff (found : List FoundDevice) (devices : List Device) :
    OpenKept devices (saneiUsbInit found devices) ↔
      ScanRecyclesClosed (devices.map Device.miss) found := by
  rw [← openKept_foldl_iff]
  constructor
  · intro h i d' hd' hopen'
    obtain ⟨d, hd, hopen, hk⟩ := openFrom_map_miss i d' hd' hopen'
    obtain ⟨d'', hd'', hk'⟩ := h i d hd hopen
    exact ⟨d'', hd'', hk'.1, hk'.2.1.trans hk.2.1.symm, hk'.2.2.trans hk.2.2.symm⟩
  · exact fun h => (openKept_map_miss).trans h

/-! ### Opening and closing -/

/-- The open fails after the device is opened and before its configuration is set. -/
def Answers.HalfFails (os : Answers) (lib : UsbLibrary) (d : Device) : Prop :=
  d.method = .libusb ∧ os.openError = none ∧
    match lib with
    | .libusb => os.configuration = none
    | .libusb10 => os.configuration = none ∨ os.configuration = some 0 ∨
        os.deviceDescriptor = false ∨ os.configDescriptor = false
    | .missing => False

/-- The handles given out are below the next one. -/
def Handles.Fresh (hs : Handles) : Prop := ∀ h ∈ hs.opened, h < hs.next

theorem Handles.close_open {hs : Handles} (h : hs.Fresh) :
    hs.open.close (some hs.next) = ⟨hs.opened, hs.next + 1⟩ := by
  have hkeep : hs.opened.filter (fun h' => some h' ≠ some hs.next) = hs.opened := by
    refine List.filter_eq_self.mpr fun h' hh' => ?_
    have hlt := h h' hh'
    simp only [ne_eq, Option.some.injEq, decide_not, Bool.not_eq_true', decide_eq_false_iff_not]
    omega
  rw [Handles.close, Handles.open, List.filter_cons_of_neg (by simp), hkeep]

/-- What a branch of `sanei_usb_open` comes to: the device is open, nothing is open, or
    the handle is forgotten. -/
structure OpenResult (half : Prop) (d : Device) (hs : Handles)
    (r : SaneStatus × Device × Handles) : Prop where
  identity : r.2.1.identity = d.identity
  isOpen : r.2.1.isOpen = d.isOpen
  outcome : ¬ half ∧ r.1 = .good ∧ r.2.2 = hs.open ∧ r.2.1.handle = some hs.next ∨
    ¬ half ∧ r.1 ≠ .good ∧ (r.2.2 = hs ∨ r.2.2 = ⟨hs.opened, hs.next + 1⟩) ∨
    half ∧ r.1 ≠ .good ∧ r.2.2 = hs.open

theorem accessStatus_ne_good (err : UsbError) : accessStatus err ≠ .good := by
  cases err <;> decide

theorem openStatus_ne_good (err : UsbError) : openStatus err ≠ .good := by
  cases err <;> decide

theorem openStatus10_ne_good (err : UsbError) : openStatus10 err ≠ .good := by
  cases err <;> decide

theorem setConfiguration_result {half : Prop} {os : Answers} {d e : Device} {hs : Handles}
    (hhalf : ¬ half) (hs' : hs.Fresh) (he : e = { d with luHandle := some hs.next })
    (hd : d.method = .libusb) : OpenResult half d hs (setConfiguration os e hs.open) := by
  have hclose : hs.open.close e.luHandle = ⟨hs.opened, hs.next + 1⟩ := by
    rw [he]
    exact Handles.close_open hs'
  have hfail : ∀ st : SaneStatus, st ≠ .good →
      OpenResult half d hs (st, e, hs.open.close e.luHandle) := by
    intro st hst
    exact ⟨by rw [he], by rw [he], .inr (.inl ⟨hhalf, hst, .inr hclose⟩)⟩
  have hclaim : OpenResult half d hs (claimInterface os e hs.open) := by
    rw [claimInterface]
    cases os.claimInterface with
    | some err => exact hfail _ (openStatus_ne_good err)
    | none =>
      refine ⟨by rw [he]; rfl, by rw [he]; rfl, .inl ⟨hhalf, rfl, rfl, ?_⟩⟩
      subst he
      simp only [Device.handle, Device.saveEndpoints, hd]
  rw [setConfiguration]
  cases os.setConfiguration with
  | none => exact hclaim
  | some err =>
    cases err with
    | busy => exact hclaim
    | access => exact hfail _ (accessStatus_ne_good .access)
    | noMem => exact hfail _ (accessStatus_ne_good .noMem)
    | other => exact hfail _ (accessStatus_ne_good .other)

/-- A branch that fails before anything is open. -/
theorem OpenResult.unopened {half : Prop} {d e : Device} {hs : Handles} {st : SaneStatus}
    (hhalf : ¬ half) (hst : st ≠ .good) (he : e.identity = d.identity)
    (ho : e.isOpen = d.isOpen) : OpenResult half d hs (st, e, hs) :=
  ⟨he, ho, .inr (.inl ⟨hhalf, hst, .inl rfl⟩)⟩

theorem openLibusb_result {os : Answers} {d : Device} {hs : Handles} (hs' : hs.Fresh)
    (hd : d.method = .libusb) :
    OpenResult (os.HalfFails .libusb d) d hs (openLibusb os d hs) := by
  rw [openLibusb]
  cases herr : os.openError with
  | some err =>
    exact .unopened (fun h => by simp [Answers.HalfFails, herr] at h) (openStatus_ne_good err)
      rfl rfl
  | none =>
    by_cases hconf : os.configuration = none
    · simp only [if_pos hconf]
      exact ⟨rfl, rfl, .inr (.inr ⟨⟨hd, herr, hconf⟩, nofun, rfl⟩)⟩
    · simp only [if_neg hconf]
      exact setConfiguration_result (fun h => hconf h.2.2) hs' rfl hd

theorem openLibusb10_result {os : Answers} {d : Device} {hs : Handles} (hs' : hs.Fresh)
    (hd : d.method = .libusb) :
    OpenResult (os.HalfFails .libusb10 d) d hs (openLibusb10 os d hs) := by
  rw [openLibusb10]
  cases herr : os.openError with
  | some err =>
    exact .unopened (fun h => by simp [Answers.HalfFails, herr] at h)
      (openStatus10_ne_good err) rfl rfl
  | none =>
    have hhalf : ∀ e : Device, e.identity = d.identity → e.isOpen = d.isOpen →
        (os.configuration = none ∨ os.configuration = some 0 ∨ os.deviceDescriptor = false ∨
          os.configDescriptor = false) →
        OpenResult (os.HalfFails .libusb10 d) d hs (.inval, e, hs.open) := by
      intro e he ho hfail
      exact ⟨he, ho, .inr (.inr ⟨⟨hd, herr, hfail⟩, nofun, rfl⟩)⟩
    cases hconf : os.configuration with
    | none => exact hhalf _ rfl rfl (.inl hconf)
    | some c =>
      cases c with
      | zero => exact hhalf _ rfl rfl (.inr (.inl hconf))
      | succ c =>
        cases hdd : os.deviceDescriptor with
        | false => exact hhalf _ rfl rfl (.inr (.inr (.inl hdd)))
        | true =>
          cases hcd : os.configDescriptor with
          | false => exact hhalf _ rfl rfl (.inr (.inr (.inr hcd)))
          | true =>
            refine setConfiguration_result ?_ hs' rfl hd
            rintro ⟨-, -, h | h | h | h⟩
            · exact nomatch hconf.symm.trans h
            · exact nomatch hconf.symm.trans h
            · exact nomatch hdd.symm.trans h
            · exact nomatch hcd.symm.trans h

theorem openDevice_result {os : Answers} {d : Device} {hs : Handles} (hs' : hs.Fresh) :
    OpenResult (os.HalfFails lib d) d hs (openDevice lib os d hs) := by
  cases hd : d.method with
  | libusb =>
    cases lib with
    | libusb =>
      simp only [openDevice, hd]
      exact openLibusb_result hs' hd
    | libusb10 =>
      simp only [openDevice, hd]
      exact openLibusb10_result hs' hd
    | missing =>
      simp only [openDevice, hd]
      exact .unopened (fun h => h.2.2) nofun rfl rfl
  | usbcalls =>
    simp only [openDevice, hd]
    exact .unopened (fun h => nomatch hd.symm.trans h.1) nofun rfl rfl
  | scannerDriver =>
    have hhalf : ¬ os.HalfFails lib d := fun h => nomatch hd.symm.trans h.1
    simp only [openDevice, hd, openScannerDriver]
    cases os.openError with
    | some err => exact .unopened hhalf (accessStatus_ne_good err) rfl rfl
    | none => exact ⟨rfl, rfl, .inl ⟨hhalf, rfl, rfl, by simp only [Device.handle, hd]⟩⟩

/-! ### Runs -/

inductive UsbOp where
  | init (found : List FoundDevice)
  | open (devname : CStr) (os : Answers)
  | close (dn : Int)
deriving DecidableEq, Repr

def UsbOp.exec (lib : UsbLibrary) (s : UsbState) : UsbOp → UsbState
  | .init found => ⟨saneiUsbInit found s.devices, s.handles⟩
  | .open devname os => (saneiUsbOpen lib devname os s).2.2
  | .close dn => saneiUsbClose dn s

/-- The table is within its bound, its entries are different devices, and what is open has
    a handle of its own that the system has open. -/
structure UsbState.Ok (s : UsbState) : Prop where
  length_le : s.devices.length ≤ MAX_DEVICES
  distinct : Distinct s.devices
  fresh : s.handles.Fresh
  live : ∀ (i : Nat) d, s.devices[i]? = some d → d.isOpen = true →
    ∃ h ∈ s.handles.opened, d.handle = some h
  own : ∀ (i j : Nat) d e, s.devices[i]? = some d → s.devices[j]? = some e →
    d.isOpen = true → e.isOpen = true → d.handle = e.handle → i = j

/-- What a successful lookup says. -/
theorem lookup_eq_some {devname : CStr} {i : Nat} (h : s.lookup devname = some i) :
    ∃ d, s.devices[i]? = some d ∧ d.missing = 0 ∧ d.devname = devname := by
  obtain ⟨hlt, hd, -⟩ := List.findIdx?_eq_some_iff_getElem.mp h
  exact ⟨s.devices[i], List.getElem?_eq_getElem hlt, by simpa using hd⟩

/-- All that `sanei_usb_open` can do: refuse, or try to open the closed device of the
    name. -/
theorem saneiUsbOpen_cases (lib : UsbLibrary) (devname : CStr) (os : Answers) (s : UsbState) :
    saneiUsbOpen lib devname os s = (.inval, none, s) ∧
        (∀ i d, s.lookup devname = some i → s.devices[i]? = some d → d.isOpen = true) ∨
      ∃ i d r, s.lookup devname = some i ∧ s.devices[i]? = some d ∧ d.isOpen = false ∧
        openDevice lib os d s.handles = r ∧
        (r.1 = .good ∧ saneiUsbOpen lib devname os s =
            (.good, some i, ⟨s.devices.set i { r.2.1 with isOpen := true }, r.2.2⟩) ∨
          r.1 ≠ .good ∧ saneiUsbOpen lib devname os s =
            (r.1, none, ⟨s.devices.set i r.2.1, r.2.2⟩)) := by
  cases hi : s.lookup devname with
  | none => exact .inl ⟨by rw [saneiUsbOpen, hi], fun i d h => nomatch h⟩
  | some i =>
    obtain ⟨d, hd, -⟩ := lookup_eq_some hi
    cases hopen : d.isOpen with
    | true =>
      refine .inl ⟨by simp only [saneiUsbOpen, hi, hd, hopen, if_true], ?_⟩
      intro j e hj he
      cases hj
      rw [hd] at he
      cases he
      exact hopen
    | false =>
      right
      rcases hr : openDevice lib os d s.handles with ⟨st, e, hs⟩
      refine ⟨i, d, (st, e, hs), rfl, hd, hopen, hr, ?_⟩
      by_cases hst : st = .good
      · subst hst
        left
        exact ⟨rfl, by simp only [saneiUsbOpen, hi, hd, hopen, hr]; rfl⟩
      · right
        refine ⟨hst, ?_⟩
        simp only [saneiUsbOpen, hi, hd, hopen, hr, Bool.false_eq_true, if_false]

theorem UsbState.initial_ok : UsbState.initial.Ok where
  length_le := Nat.zero_le _
  distinct := List.nodup_nil
  fresh _ hh := absurd hh List.not_mem_nil
  live _ _ hd := nomatch hd
  own _ _ _ _ hd := nomatch hd

/-- Where only old entries are open and no handle is closed, the open entries are as they
    should be. -/
theorem UsbState.Ok.of_openFrom (hs : s.Ok) (hlen : s'.devices.length ≤ MAX_DEVICES)
    (hdistinct : Distinct s'.devices) (hfrom : OpenFrom s.devices s'.devices)
    (hfresh : s'.handles.Fresh) (hkeep : ∀ h ∈ s.handles.opened, h ∈ s'.handles.opened) :
    s'.Ok where
  length_le := hlen
  distinct := hdistinct
  fresh := hfresh
  live i d' hd' hopen' := by
    obtain ⟨d, hd, hopen, hk⟩ := hfrom i d' hd' hopen'
    obtain ⟨h, hh, hhandle⟩ := hs.live i d hd hopen
    exact ⟨h, hkeep h hh, hk.2.2.trans hhandle⟩
  own i j d' e' hd' he' hopen hopen' heq := by
    obtain ⟨d, hd, hdo, hk⟩ := hfrom i d' hd' hopen
    obtain ⟨e, he, heo, hk'⟩ := hfrom j e' he' hopen'
    exact hs.own i j d e hd he hdo heo (hk.2.2.symm.trans (heq.trans hk'.2.2))

/-- Replacing a closed entry by a closed one. -/
theorem openFrom_set {i : Nat} {e : Device} (ho : e.isOpen = false) :
    OpenFrom devices (devices.set i e) := by
  intro j d' hd' hopen
  rw [List.getElem?_set] at hd'
  split_ifs at hd' with hij hlt
  · cases hd'
    exact absurd hopen (by rw [ho]; decide)
  · exact ⟨d', hd', hopen, .refl hopen⟩

theorem Handles.fresh_open {hs : Handles} (h : hs.Fresh) : hs.open.Fresh := by
  intro k hk
  rcases List.mem_cons.mp hk with rfl | hk
  · exact Nat.lt_succ_self _
  · exact Nat.lt_succ_of_lt (h k hk)

theorem Handles.fresh_close {hs : Handles} (h : hs.Fresh) (k : Option Nat) :
    (hs.close k).Fresh :=
  fun j hj => h j (List.mem_filter.mp hj).1

theorem Handles.fresh_succ {hs : Handles} (h : hs.Fresh) :
    Handles.Fresh ⟨hs.opened, hs.next + 1⟩ :=
  fun j hj => Nat.lt_succ_of_lt (h j hj)

/-- The device that has just been opened gets a handle nobody has. -/
theorem UsbState.Ok.opened {i : Nat} {d e : Device} (hs : s.Ok) (hd : s.devices[i]? = some d)
    (hid : e.identity = d.identity) (hhandle : e.handle = some s.handles.next) :
    UsbState.Ok ⟨s.devices.set i e, s.handles.open⟩ where
  length_le := by
    rw [List.length_set]
    exact hs.length_le
  distinct := distinct_set hs.distinct hd hid
  fresh := Handles.fresh_open hs.fresh
  live j d' hd' hopen := by
    rw [List.getElem?_set] at hd'
    split_ifs at hd' with hij hlt
    · cases hd'
      exact ⟨_, List.mem_cons_self, hhandle⟩
    · obtain ⟨h, hh, heq⟩ := hs.live j d' hd' hopen
      exact ⟨h, List.mem_cons_of_mem _ hh, heq⟩
  own j k d' e' hd' he' hopen hopen' heq := by
    have hother : ∀ (l : Nat) c, s.devices[l]? = some c → c.isOpen = true →
        c.handle ≠ some s.handles.next := by
      intro l c hc hco hch
      obtain ⟨h, hh, hch'⟩ := hs.live l c hc hco
      cases hch'.symm.trans hch
      exact Nat.lt_irrefl _ (hs.fresh _ hh)
    rw [List.getElem?_set] at hd' he'
    split_ifs at hd' he' with hij hlt hik hik
    · rw [← hij, ← hik]
    · cases hd'
      exact absurd (heq.symm.trans hhandle) (hother k e' he' hopen')
    · cases he'
      exact absurd (heq.trans hhandle) (hother j d' hd' hopen)
    · exact hs.own j k d' e' hd' he' hopen hopen' heq

/-- An open device is closed with its handle. -/
theorem UsbState.Ok.closed {i : Nat} {d : Device} (hs : s.Ok) (hd : s.devices[i]? = some d)
    (ho : d.isOpen = true) :
    UsbState.Ok ⟨s.devices.set i { d with isOpen := false }, s.handles.close d.handle⟩ where
  length_le := by
    rw [List.length_set]
    exact hs.length_le
  distinct := distinct_set hs.distinct hd rfl
  fresh := Handles.fresh_close hs.fresh _
  live j d' hd' hopen := by
    rw [List.getElem?_set] at hd'
    split_ifs at hd' with hij hlt
    · cases hd'
      exact nomatch hopen
    · obtain ⟨h, hh, heq⟩ := hs.live j d' hd' hopen
      refine ⟨h, List.mem_filter.mpr ⟨hh, ?_⟩, heq⟩
      rw [decide_eq_true_iff, ← heq]
      exact fun hsame => hij (hs.own i j d d' hd hd' ho hopen hsame.symm)
  own j k d' e' hd' he' hopen hopen' heq := by
    obtain ⟨c, hc, hco, hk⟩ := openFrom_set rfl j d' hd' hopen
    obtain ⟨c', hc', hco', hk'⟩ := openFrom_set rfl k e' he' hopen'
    exact hs.own j k c c' hc hc' hco hco' (hk.2.2.symm.trans (heq.trans hk'.2.2))

theorem saneiUsbOpen_ok (hs : s.Ok) (devname : CStr) (os : Answers) :
    (saneiUsbOpen lib devname os s).2.2.Ok := by
  rcases saneiUsbOpen_cases lib devname os s with ⟨heq, -⟩ | ⟨i, d, r, -, hd, ho, hr, hres⟩
  · rwa [heq]
  · have hresult : OpenResult (os.HalfFails lib d) d s.handles (openDevice lib os d s.handles) :=
      openDevice_result hs.fresh
    rw [hr] at hresult
    have hout := hresult.outcome
    rcases hres with ⟨hgood, heq⟩ | ⟨hbad, heq⟩
    · rw [heq]
      rcases hout with ⟨-, -, hhs, hhandle⟩ | ⟨-, hne, -⟩ | ⟨-, hne, -⟩
      · rw [hhs]
        exact hs.opened hd hresult.identity hhandle
      · exact absurd hgood hne
      · exact absurd hgood hne
    · rw [heq]
      have hclosed : r.2.1.isOpen = false := hresult.isOpen.trans ho
      have hlen : (s.devices.set i r.2.1).length ≤ MAX_DEVICES := by
        rw [List.length_set]
        exact hs.length_le
      refine hs.of_openFrom hlen (distinct_set hs.distinct hd hresult.identity)
        (openFrom_set hclosed) ?_ ?_
      · rcases hout with ⟨-, hgood, -⟩ | ⟨-, -, hhs | hhs⟩ | ⟨-, -, hhs⟩
        · exact absurd hgood hbad
        · exact hhs ▸ hs.fresh
        · exact hhs ▸ Handles.fresh_succ hs.fresh
        · exact hhs ▸ Handles.fresh_open hs.fresh
      · intro h hh
        rcases hout with ⟨-, hgood, -⟩ | ⟨-, -, hhs | hhs⟩ | ⟨-, -, hhs⟩
        · exact absurd hgood hbad
        · exact hhs ▸ hh
        · exact hhs ▸ hh
        · exact hhs ▸ List.mem_cons_of_mem _ hh

/-- `sanei_usb_close` refuses, or closes an open device. -/
theorem saneiUsbClose_cases (dn : Int) (s : UsbState) :
    saneiUsbClose dn s = s ∧ (∀ (i : Nat) d, dn = i → s.devices[i]? = some d →
        d.isOpen = false) ∨
      ∃ (i : Nat) (d : Device), dn = i ∧ s.devices[i]? = some d ∧ d.isOpen = true ∧
        saneiUsbClose dn s =
          ⟨s.devices.set i { d with isOpen := false }, s.handles.close d.handle⟩ := by
  by_cases hrange : dn ≥ s.devices.length ∨ dn < 0
  · refine .inl ⟨by rw [saneiUsbClose, if_pos hrange], fun i d hi hd => ?_⟩
    have hlt := (List.getElem?_eq_some_iff.mp hd).1
    omega
  · obtain ⟨i, rfl⟩ := Int.eq_ofNat_of_zero_le (by omega : 0 ≤ dn)
    have hlt : i < s.devices.length := by omega
    have hd := List.getElem?_eq_getElem hlt
    cases ho : s.devices[i].isOpen with
    | true =>
      refine .inr ⟨i, s.devices[i], rfl, hd, ho, ?_⟩
      simp only [saneiUsbClose, if_neg hrange, Int.toNat_natCast, hd, ho, Bool.not_true,
        Bool.false_eq_true, if_false]
    | false =>
      refine .inl ⟨?_, fun j d hj hd' => ?_⟩
      · simp only [saneiUsbClose, if_neg hrange, Int.toNat_natCast, hd, ho, Bool.not_false,
          if_true]
      · cases hj
        rw [hd] at hd'
        cases hd'
        exact ho

theorem UsbOp.exec_ok (hs : s.Ok) (op : UsbOp) : (op.exec lib s).Ok := by
  cases op with
  | init found =>
    exact hs.of_openFrom (length_saneiUsbInit_le found hs.length_le)
      (distinct_saneiUsbInit found hs.distinct) (openFrom_saneiUsbInit found _) hs.fresh
      fun h hh => hh
  | «open» devname os => exact saneiUsbOpen_ok hs devname os
  | close dn =>
    rcases saneiUsbClose_cases dn s with ⟨heq, -⟩ | ⟨i, d, -, hd, ho, heq⟩
    · rwa [UsbOp.exec, heq]
    · rw [UsbOp.exec, heq]
      exact hs.closed hd ho

/-- What the claim asks of one operation: an open device keeps its number until it is
    closed, and an open that fails leaves nothing open that was not. -/
structure UsbOp.KeepsTable (lib : UsbLibrary) (s : UsbState) (op : UsbOp) : Prop where
  kept : ∀ (dn : Nat) d, s.devices[dn]? = some d → d.isOpen = true → op ≠ .close dn →
    ∃ d', (op.exec lib s).devices[dn]? = some d' ∧ Kept d d'
  failed : ∀ devname os, op = .open devname os → (saneiUsbOpen lib devname os s).1 ≠ .good →
    (op.exec lib s).handles.opened = s.handles.opened ∧
      (op.exec lib s).devices.map Device.isOpen = s.devices.map Device.isOpen

/-- The scan recycles no entry of an open device; the open does not fail half way. -/
def UsbOp.Safe (lib : UsbLibrary) (s : UsbState) : UsbOp → Prop
  | .init found => ScanRecyclesClosed (s.devices.map Device.miss) found
  | .open devname os => ∀ i d, s.lookup devname = some i → s.devices[i]? = some d →
      d.isOpen = false → ¬ os.HalfFails lib d
  | .close _ => True

/-- Opening one device keeps the others. -/
theorem openKept_open (devname : CStr) (os : Answers) (s : UsbState) :
    OpenKept s.devices (saneiUsbOpen lib devname os s).2.2.devices := by
  have hset : ∀ (i : Nat) d e, s.devices[i]? = some d → d.isOpen = false →
      OpenKept s.devices (s.devices.set i e) := by
    intro i d e hd ho j c hc hco
    have hij : i ≠ j := by
      rintro rfl
      cases hd.symm.trans hc
      exact absurd (ho.symm.trans hco) Bool.false_ne_true
    exact ⟨c, by rw [List.getElem?_set_ne hij, hc], .refl hco⟩
  rcases saneiUsbOpen_cases lib devname os s with
    ⟨heq, -⟩ | ⟨i, d, r, -, hd, ho, -, ⟨-, heq⟩ | ⟨-, heq⟩⟩
  · rw [heq]
    exact fun i d hd hopen => ⟨d, hd, .refl hopen⟩
  · rw [heq]
    exact hset i d _ hd ho
  · rw [heq]
    exact hset i d _ hd ho

theorem openFails_iff (hs : s.Ok) (devname : CStr) (os : Answers) :
    ((saneiUsbOpen lib devname os s).1 ≠ .good →
        (saneiUsbOpen lib devname os s).2.2.handles.opened = s.handles.opened ∧
        (saneiUsbOpen lib devname os s).2.2.devices.map Device.isOpen =
          s.devices.map Device.isOpen) ↔
      (UsbOp.open devname os).Safe lib s := by
  rcases saneiUsbOpen_cases lib devname os s with ⟨heq, hopen⟩ | ⟨i, d, r, hi, hd, ho, hr, hres⟩
  · rw [heq]
    refine ⟨fun _ i d hi hd ho => ?_, fun _ _ => ⟨rfl, rfl⟩⟩
    exact absurd (ho.symm.trans (hopen i d hi hd)) Bool.false_ne_true
  · have hsafe : (UsbOp.open devname os).Safe lib s ↔ ¬ os.HalfFails lib d := by
      refine ⟨fun h => h i d hi hd ho, fun h j e hj he _ => ?_⟩
      cases hi.symm.trans hj
      cases hd.symm.trans he
      exact h
    have hresult : OpenResult (os.HalfFails lib d) d s.handles (openDevice lib os d s.handles) :=
      openDevice_result hs.fresh
    rw [hr] at hresult
    rw [hsafe]
    rcases hres with ⟨hgood, heq⟩ | ⟨hbad, heq⟩
    · rw [heq]
      refine ⟨fun _ hhalf => ?_, fun _ hne => absurd rfl hne⟩
      rcases hresult.outcome with ⟨hnot, -⟩ | ⟨hnot, -⟩ | ⟨-, hne, -⟩
      · exact hnot hhalf
      · exact hnot hhalf
      · exact hne hgood
    · rw [heq]
      have hopens : (s.devices.set i r.2.1).map Device.isOpen = s.devices.map Device.isOpen := by
        obtain ⟨hlt, rfl⟩ := List.getElem?_eq_some_iff.mp hd
        have hlt' : i < (s.devices.map Device.isOpen).length := by rwa [List.length_map]
        have hself := List.set_getElem_self hlt'
        rw [List.getElem_map] at hself
        rw [List.map_set, hresult.isOpen, hself]
      rcases hresult.outcome with ⟨-, hgood, -⟩ | ⟨hnot, -, hhs⟩ | ⟨hhalf, -, hhs⟩
      · exact absurd hgood hbad
      · refine ⟨fun _ => hnot, fun _ _ => ⟨?_, hopens⟩⟩
        rcases hhs with hhs | hhs <;> rw [hhs]
      · refine ⟨fun h => ?_, fun h => absurd hhalf h⟩
        -- the forgotten handle is one more than before
        have hmore := congrArg List.length (h hbad).1
        rw [hhs, Handles.open, List.length_cons] at hmore
        omega

theorem UsbOp.keepsTable_iff (hs : s.Ok) (op : UsbOp) : op.KeepsTable lib s ↔ op.Safe lib s := by
  cases op with
  | init found =>
    refine Iff.trans ?_ (openKept_saneiUsbInit_iff found s.devices)
    constructor
    · exact fun h dn d hd ho => h.kept dn d hd ho nofun
    · exact fun h => ⟨fun dn d hd ho _ => h dn d hd ho, nofun⟩
  | «open» devname os =>
    rw [← openFails_iff hs]
    constructor
    · exact fun h => h.failed devname os rfl
    · intro h
      refine ⟨fun dn d hd ho _ => openKept_open devname os s dn d hd ho, ?_⟩
      rintro devname' os' ⟨⟩
      exact h
  | close dn =>
    refine ⟨fun _ => trivial, fun _ => ⟨fun j d hd ho hne => ?_, nofun⟩⟩
    rcases saneiUsbClose_cases dn s with ⟨heq, -⟩ | ⟨i, e, hi, -, -, heq⟩
    · exact ⟨d, by rw [UsbOp.exec, heq, hd], .refl ho⟩
    · have hij : i ≠ j := by
        rintro rfl
        exact hne (congrArg UsbOp.close hi)
      refine ⟨d, ?_, .refl ho⟩
      rw [UsbOp.exec, heq]
      exact (List.getElem?_set_ne hij).trans hd

/-- Runs in which every step is safe keep an open device under its number. -/
theorem kept_of_run {ops : List UsbOp} {dn : Nat} {d : Device} (hs : s.Ok)
    (hd : s.devices[dn]? = some d) (ho : d.isOpen = true)
    (hrun : Run (fun s op s' => UsbOp.Safe lib s op ∧ op.exec lib s = s') s ops s')
    (hclose : .close dn ∉ ops) : s'.Ok ∧ ∃ d', s'.devices[dn]? = some d' ∧ Kept d d' := by
  induction hrun with
  | nil => exact ⟨hs, d, hd, .refl ho⟩
  | @snoc ops s₁ s₂ op _ hstep ih =>
    obtain ⟨hsafe, rfl⟩ := hstep
    rw [List.mem_append, not_or, List.mem_singleton] at hclose
    obtain ⟨hs₁, d₁, hd₁, hk⟩ := ih hclose.1
    obtain ⟨d₂, hd₂, hk'⟩ := ((UsbOp.keepsTable_iff hs₁ op).mpr hsafe).kept dn d₁ hd₁ hk.1
      (Ne.symm hclose.2)
    exact ⟨UsbOp.exec_ok hs₁ op, d₂, hd₂, hk.trans hk'⟩

/-- After every run of scans, opens and closes the table is within its bound, the entries
    found in the latest scan are different devices, and every open entry has a handle the
    system has open.  The next operation keeps the open devices under their numbers and
    forgets no handle exactly if it is safe, and so do all runs of safe operations. -/
theorem usb_table {ops : List UsbOp}
    (hrun : Run (fun s op s' => UsbOp.exec lib s op = s') UsbState.initial ops s) :
    s.devices.length ≤ MAX_DEVICES ∧
      (∀ (i j : Nat) d e, s.devices[i]? = some d → s.devices[j]? = some e → i ≠ j →
        d.missing = 0 → e.missing = 0 → d.identity ≠ e.identity) ∧
      (∀ (dn : Nat) d, s.devices[dn]? = some d → d.isOpen = true →
        ∃ h ∈ s.handles.opened, d.handle = some h) ∧
      (∀ op, UsbOp.KeepsTable lib s op ↔ op.Safe lib s) ∧
      ∀ ops' s', Run (fun s op s' => UsbOp.Safe lib s op ∧ op.exec lib s = s') s ops' s' →
        ∀ (dn : Nat) d, s.devices[dn]? = some d → d.isOpen = true → .close dn ∉ ops' →
          ∃ d', s'.devices[dn]? = some d' ∧ Kept d d' := by
  have hs : s.Ok := by
    refine hrun.invariant UsbState.initial_ok ?_
    rintro s op _ hs rfl
    exact UsbOp.exec_ok hs op
  refine ⟨hs.length_le, ?_, hs.live, UsbOp.keepsTable_iff hs, ?_⟩
  · intro i j d e hd he hij _ _ hid
    have hlt : i < (s.devices.map (·.identity)).length := by
      rw [List.length_map]
      exact (List.getElem?_eq_some_iff.mp hd).1
    refine hij (List.getElem?_inj hlt hs.distinct |>.mp ?_)
    rw [List.getElem?_map, List.getElem?_map, hd, he]
    exact congrArg some hid
  · intro ops' s' hrun' dn d hd ho hclose
    exact (kept_of_run hs hd ho hrun' hclose).2

theorem run_foldl (lib : UsbLibrary) (ops : List UsbOp) (s : UsbState) :
    Run (fun s op s' => UsbOp.exec lib s op = s') s ops (ops.foldl (UsbOp.exec lib) s) := by
  induction ops using List.reverseRecOn with
  | nil => exact .nil
  | append_singleton ops op ih =>
    rw [List.foldl_append]
    exact .snoc ih rfl

/-- A device of libusb that a scan finds. -/
def usbScanner (address : Char) (product : Int) : FoundDevice where
  method := .libusb
  devname := ascii ['0', '0', '1', ':', '0', '0', address]
  vendor := 1193
  product := product
  interfaceNr := 0
  luDevice := product.toNat

/-- Every call succeeds; the device has one bulk-in endpoint. -/
def answersGood : Answers :=
  ⟨none, some 1, true, true, none, none, [some [[[⟨0x81, 2⟩]]]]⟩

/-- A device is found and opened. -/
def openedRun : List UsbOp :=
  [.init [usbScanner '4' 1], .open (usbScanner '4' 1).devname answersGood]

/-- The device that has been opened stays open in a scan that finds another one. -/
theorem usb_table_opened :
    (openedRun.foldl (UsbOp.exec .libusb10) .initial).devices.length ≤ MAX_DEVICES ∧
      UsbOp.KeepsTable .libusb10 (openedRun.foldl (UsbOp.exec .libusb10) .initial)
        (.init [usbScanner '5' 2]) := by
  obtain ⟨hlen, -, -, hkeeps, -⟩ := usb_table (run_foldl .libusb10 openedRun .initial)
  refine ⟨hlen, (hkeeps _).mpr ⟨fun pos d hplace => ?_, trivial⟩⟩
  have happend : findPlace (usbScanner '5' 2) ((openedRun.foldl (UsbOp.exec .libusb10)
      .initial).devices.map Device.miss) 0 none = .append := by decide +kernel
  exact nomatch happend.symm.trans hplace

/-- Two scans do not find the open device. -/
def missedRun : List UsbOp := openedRun ++ [.init [], .init []]

/-- An open device is missing in two scans; the third one puts another device into its
    entry and closes it.  And a device whose configuration cannot be read stays open in the
    system although `sanei_usb_open` has failed. -/
theorem usb_table_recycled :
    ¬ (∀ ops s, Run (fun s op s' => UsbOp.exec .libusb10 s op = s') UsbState.initial ops s →
        ∀ op, (UsbOp.KeepsTable .libusb10 s op)) ∧
      ¬ UsbOp.KeepsTable .libusb10 (missedRun.foldl (UsbOp.exec .libusb10)
        .initial) (.init [usbScanner '5' 2]) ∧
      ¬ UsbOp.KeepsTable .libusb10 (UsbOp.exec .libusb10 .initial (.init [usbScanner '4' 1]))
        (.open (usbScanner '4' 1).devname { answersGood with configuration := some 0 }) := by
  have hrecycled : ¬ UsbOp.KeepsTable .libusb10 (missedRun.foldl (UsbOp.exec .libusb10)
      .initial) (.init [usbScanner '5' 2]) := by
    intro h
    have hclosed : ((UsbOp.exec .libusb10 (missedRun.foldl (UsbOp.exec .libusb10)
        .initial) (.init [usbScanner '5' 2])).devices[0]?).map
          Device.isOpen = some false := by decide +kernel
    have hopen : ((missedRun.foldl (UsbOp.exec .libusb10)
        .initial).devices[0]?).map Device.isOpen = some true := by
      decide +kernel
    obtain ⟨d, hd, ho⟩ := Option.map_eq_some_iff.mp hopen
    obtain ⟨d', hd', hk⟩ := h.kept 0 d hd ho nofun
    rw [hd'] at hclosed
    exact nomatch hk.1.symm.trans (Option.some.inj hclosed)
  refine ⟨fun h => hrecycled (h _ _ (run_foldl _ _ _) _), hrecycled, fun h => ?_⟩
  have hopened := (h.failed _ _ rfl (by decide +kernel)).1
  exact absurd hopened (by decide +kernel)

end SaneBackends.SaneiUsb
