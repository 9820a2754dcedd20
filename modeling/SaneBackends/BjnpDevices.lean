import SaneBackends.CStrings
import SaneBackends.LabelledRun

/-!
# The device table of the BJNP protocol

`bjnp_allocate_device` of `backend/pixma_bjnp.c`.  The next free entry of the table is
filled for each address of a host in turn, the scanner there is asked for its MAC address,
and the entry is compared with those in use.  A MAC address that cannot be read ends the
loop, but not the call: the entry is added to the table all the same.
-/

namespace SaneBackends.BjnpTable

open LabelledRun

def BJNP_NO_DEVICES : Nat := 16
def BJNP_METHOD_MAX : Nat := 16
def BJNP_HOST_MAX : Nat := 128
def BJNP_PORT_MAX : Nat := 64
def BJNP_ARGS_MAX : Nat := 128
def BJNP_METHOD : CStr := ascii ['b', 'j', 'n', 'p']
def CMD_UDP_DISCOVER : SaneByte := 0x01

/-! ### URIs -/

structure Uri where
  method : CStr
  host : CStr
  port : CStr
  args : CStr
deriving DecidableEq, Repr

def colon : SaneByte := 0x3a
def slash : SaneByte := 0x2f

/-- "retrieve host": the host, the character `next` behind it and what begins there. -/
def splitHost (start : CStr) : Option (CStr × Option SaneByte × CStr) :=
  if start.head? = some 0x5b then
    -- a literal IPv6 address between brackets
    match start.dropWhile (· ≠ 0x5d) with
    | [] => none
    | _ :: behind =>
        if (behind.head? ≠ some colon ∧ behind.head? ≠ some slash ∧ behind.head? ≠ none) ∨
            (start.takeWhile (· ≠ 0x5d)).length ≥ BJNP_HOST_MAX then none
        else some ((start.takeWhile (· ≠ 0x5d)).tail, behind.head?, behind.tail)
  else
    let host := start.takeWhile fun c => c ≠ slash ∧ c ≠ colon
    let behind := start.dropWhile fun c => c ≠ slash ∧ c ≠ colon
    if host.length = 0 ∨ host.length ≥ BJNP_HOST_MAX then none
    else some (host, behind.head?, behind.tail)

/-- "retrieve port number".  `start` stays at the port. -/
def splitPort (next : Option SaneByte) (start : CStr) :
    Option (CStr × Option SaneByte × CStr) :=
  if next ≠ some colon then some ([], next, start)
  else
    let port := start.takeWhile (· ≠ slash)
    if port.length = 0 ∨ port.length ≥ BJNP_PORT_MAX then none
    else some (port, if slash ∈ start then some slash else none, port)

/-- `split_uri`.  The copy of the URI and the buffer for the arguments have a fixed size
    that is not checked. -/
def splitUri (devname : CStr) : Except Fault (Option Uri) :=
  if devname.length ≥ 1024 then .error .outOfBounds
  else
    let method := devname.takeWhile (· ≠ colon)
    let start := devname.dropWhile (· ≠ colon)
    if start.take 3 ≠ [colon, slash, slash] ∨ method.length > BJNP_METHOD_MAX - 1 then .ok none
    else
      match splitHost (start.drop 3) with
      | none => .ok none
      | some (host, next, start) =>
          match splitPort next start with
          | none => .ok none
          | some (port, next, start) =>
              if next ≠ some slash then .ok (some ⟨method, host, port, []⟩)
              else if start.length ≥ BJNP_ARGS_MAX then .error .outOfBounds
              else .ok (some ⟨method, host, port, start⟩)

/-! ### Addresses -/

/-- The addresses the resolver returns (`bjnp_sockaddr_t`). -/
inductive SockAddr where
  | inet (port : BitVec 16) (addr : BitVec 32)
  | inet6 (port : BitVec 16) (addr : BitVec 128)
deriving DecidableEq, Repr

/-- `sa_is_equal`, with null pointers. -/
def saIsEqual : Option SockAddr → Option SockAddr → Bool
  | some (.inet p a), some (.inet p' a') => p = p' ∧ a = a'
  | some (.inet6 p a), some (.inet6 p' a') => p = p' ∧ a = a'
  | _, _ => false

def hdigit (x : SaneByte) : SaneByte :=
  (ascii ['0', '1', '2', '3', '4', '5', '6', '7', '8', '9', 'a', 'b', 'c', 'd', 'e', 'f']).getD
    x.toNat 0

def u8tohex (value : List SaneByte) : CStr :=
  value.flatMap fun x : SaneByte => [hdigit ((x >>> 4) &&& 0xf), hdigit (x &&& 0xf)]

/-! ### The table -/

/-- `bjnp_device_t` -/
structure Device where
  isOpen : Bool
  tcpSocket : Int
  serial : BitVec 16
  sessionId : Int
  lastCmd : SaneByte
  blocksize : Nat
  scannerDataLeft : Nat
  lastBlock : Bool
  macAddress : CStr
  addr : Option SockAddr
  bjnpTimeout : Int
deriving DecidableEq, Repr

/-- A static entry before its first use. -/
def Device.zero : Device := ⟨false, 0, 0, 0, 0, 0, 0, false, [], none, 0⟩

/-- `device` and `bjnp_no_devices` -/
structure Table where
  device : List Device
  noDevices : Nat
deriving DecidableEq, Repr

def Table.initial : Table := ⟨List.replicate BJNP_NO_DEVICES .zero, 0⟩

/-- The entries in use. -/
def Table.committed (t : Table) : List Device := t.device.take t.noDevices

/-- An address of a host, with what `bjnp_get_scanner_mac_address` reads there: the MAC
    address, or `none` when it returns -1. -/
structure Answer where
  sa : SockAddr
  mac : Option (List SaneByte)
deriving DecidableEq, Repr

/-- `bjnp_init_device_structure`: the entry, and whether it returns 0.  The command that
    asks for the MAC address takes the first serial number. -/
def initDeviceStructure (d : Device) (a : Answer) : Bool × Device :=
  let d : Device := ⟨false, -1, 0, 0, CMD_UDP_DISCOVER, 2048, 0, false, d.macAddress, some a.sa, 0⟩
  match a.mac with
  | none => (false, d)
  | some mac => (true, { d with macAddress := u8tohex mac })

/-- `bjnp_free_device_structure` -/
def freeDeviceStructure (d : Device) : Device := { d with addr := none, isOpen := false }

/-- `BJNP_Status` with what `bjnp_allocate_device` stores; `unresolved` is the
    `SANE_STATUS_INVAL` of a host without an address. -/
inductive Allocated where
  | good (dn : Nat) (host : CStr)
  | inval
  | unresolved
  | alreadyAllocated (dn : Nat)
deriving DecidableEq, Repr

/-- An entry matches if the address or the MAC address is the same. -/
def Device.matches (d : Device) (sa : SockAddr) (mac : CStr) : Bool :=
  saIsEqual d.addr (some sa) || d.macAddress = mac

/-- "Commit new device structure" -/
def commit (host : CStr) (t : Table) : Allocated × Table :=
  (.good t.noDevices host, { t with noDevices := t.noDevices + 1 })

/-- The loop over the addresses of a host, and the commit behind it. -/
def tryAddresses (host : CStr) : List Answer → Table → Allocated × Table
  | [], t => commit host t
  | a :: as, t =>
      if t.noDevices = BJNP_NO_DEVICES then (.inval, t)
      else
        match initDeviceStructure (t.device.getD t.noDevices .zero) a with
        | (false, d) =>
            -- "giving up on this address, try next one if any"
            commit host { t with device := t.device.set t.noDevices d }
        | (true, d) =>
            match t.committed.findIdx? fun e => e.matches a.sa d.macAddress with
            | some i =>
                (.alreadyAllocated i,
                  { t with device := t.device.set t.noDevices (freeDeviceStructure d) })
            | none =>
                tryAddresses host as { t with device := t.device.set t.noDevices d }

/-- What the resolver and the scanners answer for a host: `none` when it has no address,
    otherwise at least one. -/
abbrev Resolved := Option (Answer × List Answer)

def bjnpAllocateDevice (devname : CStr) (resolved : Resolved) (t : Table) :
    Except Fault (Allocated × Table) := do
  match ← splitUri devname with
  | none => return (.inval, t)
  | some uri =>
      if uri.args.length ≠ 0 then return (.inval, t)
      else if uri.method ≠ BJNP_METHOD then return (.inval, t)
      else
        match resolved with
        | none => return (.unresolved, t)
        | some (a, as) => return tryAddresses uri.host (a :: as) t

/-! ### What the loop does -/

variable {t t' : Table} {host : CStr}

/-- An entry is that of the scanner, by its address or by the MAC address read there. -/
def Device.Is (e : Device) (a : Answer) : Prop :=
  saIsEqual e.addr (some a.sa) = true ∨ ∃ mac, a.mac = some mac ∧ e.macAddress = u8tohex mac

/-- A scanner is in the table already. -/
def Known (devices : List Device) (a : Answer) : Prop := ∃ e ∈ devices, e.Is a

/-- Each MAC address asked for is read, up to the first scanner that is known. -/
def QueriesOk (devices : List Device) : List Answer → Prop
  | [] => True
  | a :: as => a.mac.isSome = true ∧ (Known devices a ∨ QueriesOk devices as)

/-- An entry is that of a scanner whose MAC address has been read. -/
def FilledFrom (seen : List Answer) (d : Device) : Prop :=
  ∃ a ∈ seen, ∃ mac, a.mac = some mac ∧ d.addr = some a.sa ∧ d.macAddress = u8tohex mac

/-- Two entries share neither address nor MAC address. -/
def Apart (d e : Device) : Prop := saIsEqual d.addr e.addr = false ∧ d.macAddress ≠ e.macAddress

structure Table.Ok (seen : List Answer) (t : Table) : Prop where
  length : t.device.length = BJNP_NO_DEVICES
  count_le : t.noDevices ≤ BJNP_NO_DEVICES
  filled : ∀ d ∈ t.committed, FilledFrom seen d
  apart : t.committed.Pairwise Apart

theorem committed_set (t : Table) (d : Device) :
    ({ t with device := t.device.set t.noDevices d } : Table).committed = t.committed :=
  List.take_set_of_le (Nat.le_refl _)

/-- The entry that `bjnp_init_device_structure` fills when the MAC address can be read. -/
theorem initDeviceStructure_some {d e : Device} {a : Answer} {mac : List SaneByte}
    (hmac : a.mac = some mac) (h : (initDeviceStructure d a).2 = e) :
    initDeviceStructure d a = (true, e) ∧ e.addr = some a.sa ∧ e.macAddress = u8tohex mac := by
  subst h
  simp only [initDeviceStructure, hmac, and_self]

theorem matches_iff {e : Device} {a : Answer} {mac : List SaneByte} (hmac : a.mac = some mac) :
    e.matches a.sa (u8tohex mac) = true ↔ e.Is a := by
  simp only [Device.matches, Device.Is, Bool.or_eq_true, decide_eq_true_iff, hmac, Option.some.injEq,
    exists_eq_left']

/-- The next free entry holds a scanner that the table does not know. -/
def Table.Candidate (seen : List Answer) (t : Table) : Prop :=
  FilledFrom seen (t.device.getD t.noDevices .zero) ∧
    ∀ e ∈ t.committed, Apart e (t.device.getD t.noDevices .zero)

/-- How a call ends that has read the MAC addresses it has asked for. -/
inductive Ends (seen : List Answer) (host : CStr) (as : List Answer) (t : Table) :
    Allocated × Table → Prop
  | known {t' : Table} (i : Nat) (e : Device) (a : Answer) :
      a ∈ as → t.committed[i]? = some e → e.Is a →
      t'.committed = t.committed → t'.noDevices = t.noDevices →
      t'.device.length = t.device.length → Ends seen host as t (.alreadyAllocated i, t')
  | added {t' : Table} (d : Device) :
      (∀ a ∈ as, ¬ Known t.committed a) → FilledFrom seen d → (∀ e ∈ t.committed, Apart e d) →
      t'.committed = t.committed ++ [d] → t'.noDevices = t.noDevices + 1 →
      t'.device.length = t.device.length → Ends seen host as t (.good t.noDevices host, t')

theorem commit_ends {seen : List Answer} (h : t.Ok seen) (hroom : t.noDevices < BJNP_NO_DEVICES)
    (hcand : t.Candidate seen) : Ends seen host [] t (commit host t) := by
  have hlt : t.noDevices < t.device.length := by
    rw [h.length]
    exact hroom
  refine .added (t.device.getD t.noDevices .zero) (fun a ha => absurd ha List.not_mem_nil)
    hcand.1 hcand.2 ?_ rfl rfl
  have hget : t.device.getD t.noDevices .zero = t.device[t.noDevices] := by
    rw [List.getD_eq_getElem?_getD, List.getElem?_eq_getElem hlt]
    rfl
  rw [hget]
  exact List.take_succ_eq_append_getElem hlt

/-- What is said of the rest of a list of addresses holds of the list. -/
theorem Ends.of_tail {seen as : List Answer} {a : Answer} {d : Device} {r : Allocated × Table}
    (hunknown : ¬ Known t.committed a)
    (h : Ends seen host as { t with device := t.device.set t.noDevices d } r) :
    Ends seen host (a :: as) t r := by
  have hcommitted := committed_set t d
  cases h with
  | known i e b hb he his hc hn hl =>
    refine .known i e b (List.mem_cons_of_mem _ hb) (hcommitted ▸ he) his (hc.trans hcommitted)
      hn ?_
    rw [hl, List.length_set]
  | added e hno hfill hapart hc hn hl =>
    rw [hcommitted] at hno hapart hc
    refine .added e (List.forall_mem_cons.mpr ⟨hunknown, hno⟩) hfill hapart hc hn ?_
    rw [hl, List.length_set]

theorem tryAddresses_ends {seen : List Answer} (host : CStr) (as : List Answer) (t : Table)
    (h : t.Ok seen) (hroom : t.noDevices < BJNP_NO_DEVICES)
    (hcand : as = [] → t.Candidate seen) (hq : QueriesOk t.committed as)
    (hseen : ∀ a ∈ as, a ∈ seen) : Ends seen host as t (tryAddresses host as t) := by
  induction as generalizing t with
  | nil => exact commit_ends h hroom (hcand rfl)
  | cons a as ih =>
    obtain ⟨hread, hrest⟩ := hq
    obtain ⟨mac, hmac⟩ := Option.isSome_iff_exists.mp hread
    obtain ⟨d, hd⟩ : ∃ d, (initDeviceStructure (t.device.getD t.noDevices .zero) a).2 = d :=
      ⟨_, rfl⟩
    obtain ⟨hinit, haddr, hhex⟩ := initDeviceStructure_some hmac hd
    have hlt : t.noDevices < t.device.length := by
      rw [h.length]
      exact hroom
    have hcommitted := committed_set t d
    rw [tryAddresses, if_neg (Nat.ne_of_lt hroom), hinit]
    cases hfind : t.committed.findIdx? fun e => e.matches a.sa d.macAddress with
    | some i =>
      obtain ⟨hi, hmatch, -⟩ := List.findIdx?_eq_some_iff_getElem.mp hfind
      rw [hhex] at hmatch
      simp only [hfind]
      exact .known i _ a List.mem_cons_self (List.getElem?_eq_getElem hi)
        ((matches_iff hmac).mp hmatch) (committed_set t _) rfl (List.length_set ..)
    | none =>
      have hunknown : ∀ e ∈ t.committed, ¬ e.Is a := by
        intro e he his
        have hno := List.findIdx?_eq_none_iff.mp hfind e he
        rw [hhex, (matches_iff hmac).mpr his] at hno
        exact nomatch hno
      simp only [hfind]
      refine .of_tail (fun ⟨e, he, his⟩ => hunknown e he his) (ih _ ?_ hroom ?_ ?_ ?_)
      · exact ⟨by rw [List.length_set, h.length], h.count_le, hcommitted.symm ▸ h.filled,
          hcommitted.symm ▸ h.apart⟩
      · intro _
        have hget : (t.device.set t.noDevices d).getD t.noDevices .zero = d := by
          rw [List.getD_eq_getElem?_getD, List.getElem?_set_self hlt]
          rfl
        refine ⟨hget.symm ▸ ⟨a, hseen a List.mem_cons_self, mac, hmac, haddr, hhex⟩, ?_⟩
        rw [hcommitted]
        intro e he
        rw [show (t.device.set t.noDevices d).getD t.noDevices .zero = d from hget]
        refine ⟨?_, fun hsame => hunknown e he (.inr ⟨mac, hmac, hsame.trans hhex⟩)⟩
        rw [haddr, ← Bool.not_eq_true]
        exact fun hsame => hunknown e he (.inl hsame)
      · rw [hcommitted]
        refine hrest.resolve_left ?_
        rintro ⟨e, he, his⟩
        exact hunknown e he his
      · exact fun b hb => hseen b (List.mem_cons_of_mem _ hb)

/-! ### Runs -/

/-- A call passes the tests on the URI. -/
def Accepted (devname : CStr) : Prop :=
  ∃ uri, splitUri devname = .ok (some uri) ∧ uri.args.length = 0 ∧ uri.method = BJNP_METHOD

/-- The URI fits into the buffers; the MAC address of each address that is tried can be
    read; and a scanner that is known does not meet a full table. -/
def Table.Safe (t : Table) (devname : CStr) (resolved : Resolved) : Prop :=
  splitUri devname ≠ .error .outOfBounds ∧
    (Accepted devname → ∀ a as, resolved = some (a, as) →
      (t.noDevices < BJNP_NO_DEVICES → QueriesOk t.committed (a :: as)) ∧
      (t.noDevices = BJNP_NO_DEVICES → ∀ b ∈ a :: as, ¬ Known t.committed b))

/-- What the claim asks of one call. -/
structure CallMeets (t : Table) (devname : CStr) (resolved : Resolved) (r : Allocated)
    (t' : Table) : Prop where
  /-- a known scanner gives its index -/
  known : Accepted devname → ∀ a as, resolved = some (a, as) →
    (∃ b ∈ a :: as, Known t.committed b) →
    ∃ i e, r = .alreadyAllocated i ∧ t.committed[i]? = some e ∧ ∃ b ∈ a :: as, e.Is b
  /-- only a scanner that is added changes the table -/
  unchanged : (∀ dn host, r ≠ .good dn host) →
    t'.noDevices = t.noDevices ∧ t'.committed = t.committed
  added : ∀ dn host, r = .good dn host →
    dn = t.noDevices ∧ ∃ d, t'.committed = t.committed ++ [d]

theorem splitUri_error {devname : CStr} {e : Fault} (h : splitUri devname = .error e) :
    e = .outOfBounds := by
  simp only [splitUri] at h
  split at h
  · exact (Except.error.inj h).symm
  · split at h
    · exact nomatch h
    · split at h
      · exact nomatch h
      · split at h
        · exact nomatch h
        · split at h
          · exact nomatch h
          · split at h
            · exact (Except.error.inj h).symm
            · exact nomatch h

/-- A call either rejects the URI or the host, or it goes through the addresses. -/
theorem bjnpAllocateDevice_cases {devname : CStr} (hfits : splitUri devname ≠ .error .outOfBounds)
    (resolved : Resolved) (t : Table) :
    (∃ r, bjnpAllocateDevice devname resolved t = .ok (r, t) ∧ (∀ dn host, r ≠ .good dn host) ∧
        (Accepted devname → resolved = none)) ∨
      ∃ (uri : Uri) (a : Answer) (as : List Answer), Accepted devname ∧ resolved = some (a, as) ∧
        bjnpAllocateDevice devname resolved t = .ok (tryAddresses uri.host (a :: as) t) := by
  cases huri : splitUri devname with
  | error e => exact absurd (splitUri_error huri ▸ huri) hfits
  | ok parsed =>
    cases parsed with
    | none =>
      refine .inl ⟨.inval, by rw [bjnpAllocateDevice, huri]; rfl, nofun, ?_⟩
      rintro ⟨uri, h, -⟩
      exact nomatch huri.symm.trans h
    | some uri =>
      have hunique : ∀ uri', splitUri devname = .ok (some uri') → uri' = uri := by
        intro uri' h
        cases huri.symm.trans h
        rfl
      by_cases hargs : uri.args.length = 0
      · by_cases hmethod : uri.method = BJNP_METHOD
        · have haccepted : Accepted devname := ⟨uri, huri, hargs, hmethod⟩
          cases resolved with
          | none =>
            refine .inl ⟨.unresolved, ?_, nofun, fun _ => rfl⟩
            simp only [bjnpAllocateDevice, huri, bind, Except.bind, hargs, hmethod, ne_eq,
              not_true_eq_false, if_false]
            rfl
          | some found =>
            refine .inr ⟨uri, found.1, found.2, haccepted, rfl, ?_⟩
            simp only [bjnpAllocateDevice, huri, bind, Except.bind, hargs, hmethod, ne_eq,
              not_true_eq_false, if_false]
            rfl
        · refine .inl ⟨.inval, ?_, nofun, ?_⟩
          · simp only [bjnpAllocateDevice, huri, bind, Except.bind, hargs, hmethod, ne_eq,
              not_true_eq_false, not_false_eq_true, if_false, if_true]
            rfl
          · rintro ⟨uri', h, -, hm⟩
            exact absurd (hunique uri' h ▸ hm) hmethod
      · refine .inl ⟨.inval, ?_, nofun, ?_⟩
        · simp only [bjnpAllocateDevice, huri, bind, Except.bind, hargs, ne_eq,
            not_false_eq_true, if_true]
          rfl
        · rintro ⟨uri', h, ha, -⟩
          exact absurd (hunique uri' h ▸ ha) hargs

inductive BjnpOp where
  /-- `sanei_bjnp_init`, or the start of `sanei_bjnp_find_devices` -/
  | init
  | allocate (devname : CStr) (resolved : Resolved)
deriving DecidableEq, Repr

/-- The addresses of a call with the answers that come from them. -/
def BjnpOp.answers : BjnpOp → List Answer
  | .init => []
  | .allocate _ resolved => resolved.elim [] fun (a, as) => a :: as

def BjnpOp.exec (t : Table) : BjnpOp → Except Fault Table
  | .init => .ok { t with noDevices := 0 }
  | .allocate devname resolved => (bjnpAllocateDevice devname resolved t).map Prod.snd

def BjnpOp.Safe (t : Table) : BjnpOp → Prop
  | .init => True
  | .allocate devname resolved => t.Safe devname resolved

theorem Table.Ok.mono {seen seen' : List Answer} (h : t.Ok seen) (hsub : ∀ a ∈ seen, a ∈ seen') :
    t.Ok seen' := by
  refine ⟨h.length, h.count_le, fun d hd => ?_, h.apart⟩
  obtain ⟨a, ha, hmac⟩ := h.filled d hd
  exact ⟨a, hsub a ha, hmac⟩

theorem Table.initial_ok : Table.initial.Ok [] where
  length := List.length_replicate
  count_le := Nat.zero_le _
  filled d hd := absurd hd (by simp [Table.committed, Table.initial])
  apart := by simp [Table.committed, Table.initial]

/-- A safe call returns, and it does what it should. -/
theorem bjnpAllocateDevice_meets {seen : List Answer} {devname : CStr} {resolved : Resolved}
    (h : t.Ok seen) (hseen : ∀ a ∈ (BjnpOp.allocate devname resolved).answers, a ∈ seen)
    (hsafe : t.Safe devname resolved) :
    ∃ r t', bjnpAllocateDevice devname resolved t = .ok (r, t') ∧ t'.Ok seen ∧
      CallMeets t devname resolved r t' := by
  rcases bjnpAllocateDevice_cases hsafe.1 resolved t with
    ⟨r, heq, hbad, hnone⟩ | ⟨uri, a, as, haccepted, rfl, heq⟩
  · refine ⟨r, t, heq, h, ?_, fun _ => ⟨rfl, rfl⟩, fun dn host hr => absurd hr (hbad dn host)⟩
    intro haccepted a as hres
    exact nomatch (hnone haccepted).symm.trans hres
  · obtain ⟨hqueries, hfull⟩ := hsafe.2 haccepted a as rfl
    rcases Nat.lt_or_eq_of_le h.count_le with hroom | hno
    · have hends := tryAddresses_ends uri.host (a :: as) t h hroom nofun (hqueries hroom) hseen
      obtain ⟨result, hresult⟩ : ∃ result, tryAddresses uri.host (a :: as) t = result := ⟨_, rfl⟩
      rw [hresult] at hends heq
      refine ⟨result.1, result.2, heq, ?_⟩
      cases hends with
      | known i e b hb he his hc hn hl =>
        refine ⟨⟨hl.trans h.length, hn ▸ h.count_le, hc ▸ h.filled, hc ▸ h.apart⟩, ?_,
          fun _ => ⟨hn, hc⟩, nofun⟩
        intro _ a' as' hres _
        cases hres
        exact ⟨i, e, rfl, he, b, hb, his⟩
      | added d hunknown hfill hapart hc hn hl =>
        refine ⟨⟨hl.trans h.length, hn ▸ hroom, ?_, ?_⟩, ?_, fun hne => absurd rfl (hne _ _), ?_⟩
        · rw [hc]
          intro e he
          rcases List.mem_append.mp he with he | he
          · exact h.filled e he
          · exact List.mem_singleton.mp he ▸ hfill
        · rw [hc]
          refine List.pairwise_append.mpr ⟨h.apart, List.pairwise_singleton .., ?_⟩
          intro e he e' he'
          exact List.mem_singleton.mp he' ▸ hapart e he
        · rintro _ a' as' hres ⟨b, hb, hknown⟩
          cases hres
          exact absurd hknown (hunknown b hb)
        · rintro dn host ⟨⟩
          exact ⟨rfl, d, hc⟩
    · have hresult : tryAddresses uri.host (a :: as) t = (.inval, t) := by
        rw [tryAddresses, if_pos hno]
      refine ⟨.inval, t, by rw [heq, hresult], h, ?_, fun _ => ⟨rfl, rfl⟩, nofun⟩
      rintro _ a' as' hres ⟨b, hb, hknown⟩
      cases hres
      exact absurd hknown (hfull hno b hb)

theorem BjnpOp.exec_ok {seen : List Answer} {op : BjnpOp} (h : t.Ok seen) (hsafe : op.Safe t)
    (hexec : op.exec t = .ok t') : t'.Ok (seen ++ op.answers) := by
  cases op with
  | init =>
    cases hexec
    refine ⟨h.length, Nat.zero_le _, fun d hd => ?_, ?_⟩
    · exact absurd hd (by simp [Table.committed])
    · simp [Table.committed]
  | allocate devname resolved =>
    have hok : t.Ok (seen ++ (BjnpOp.allocate devname resolved).answers) :=
      h.mono fun a ha => List.mem_append_left _ ha
    obtain ⟨r, t'', hrun, hok', -⟩ :=
      bjnpAllocateDevice_meets hok (fun a ha => List.mem_append_right _ ha) hsafe
    rw [BjnpOp.exec, hrun] at hexec
    cases hexec
    exact hok'

/-- In every run of safe calls the table stays within its bound, each entry in use has an
    address at which its MAC address was read in the run, and no two of them share an
    address or a MAC address.  The next safe call returns and does what it should. -/
theorem allocate_device {ops : List BjnpOp}
    (hrun : Run (fun t op t' => BjnpOp.Safe t op ∧ op.exec t = .ok t') Table.initial ops t) :
    t.noDevices ≤ BJNP_NO_DEVICES ∧
      (∀ d ∈ t.committed, FilledFrom (ops.flatMap BjnpOp.answers) d) ∧
      t.committed.Pairwise Apart ∧
      ∀ devname resolved, t.Safe devname resolved → ∃ r t',
        bjnpAllocateDevice devname resolved t = .ok (r, t') ∧
          CallMeets t devname resolved r t' := by
  have hok : t.Ok (ops.flatMap BjnpOp.answers) := by
    refine hrun.history (I := fun ops t => t.Ok (ops.flatMap BjnpOp.answers))
      Table.initial_ok ?_
    rintro ops t op t' h ⟨hsafe, hexec⟩
    rw [List.flatMap_append, List.flatMap_singleton]
    exact BjnpOp.exec_ok h hsafe hexec
  refine ⟨hok.count_le, hok.filled, hok.apart, fun devname resolved hsafe => ?_⟩
  have hok' : t.Ok (ops.flatMap BjnpOp.answers ++
      (BjnpOp.allocate devname resolved).answers) :=
    hok.mono fun a ha => List.mem_append_left _ ha
  obtain ⟨r, t', heq, -, hmeets⟩ :=
    bjnpAllocateDevice_meets hok' (fun a ha => List.mem_append_right _ ha) hsafe
  exact ⟨r, t', heq, hmeets⟩

/-- The URI of a host. -/
def hostUri : CStr := BJNP_METHOD ++ ascii [':', '/', '/', 'h']

/-- A scanner that answers; its addresses are told apart by one number. -/
def answering (n : Nat) : Answer where
  sa := .inet 8612 (BitVec.ofNat 32 n)
  mac := some [0, 0, 0, 0, 0, BitVec.ofNat 8 n]

/-- The same scanner, switched off. -/
def silent (n : Nat) : Answer := { answering n with mac := none }

theorem hostUri_splits : splitUri hostUri = .ok (some ⟨BJNP_METHOD, ascii ['h'], [], []⟩) := by
  decide +kernel

/-- A scanner is added and found again. -/
theorem allocate_device_first :
    ∃ t, (BjnpOp.allocate hostUri (some (answering 1, []))).exec .initial = .ok t ∧
      t.noDevices ≤ BJNP_NO_DEVICES ∧ ∃ r t',
        bjnpAllocateDevice hostUri (some (answering 1, [])) t = .ok (r, t') ∧
          CallMeets t hostUri (some (answering 1, [])) r t' := by
  have hsafe : ∀ t : Table, t.noDevices < BJNP_NO_DEVICES →
      t.Safe hostUri (some (answering 1, [])) := by
    refine fun t hroom => ⟨by rw [hostUri_splits]; nofun, ?_⟩
    rintro - a as ⟨⟩
    exact ⟨fun _ => ⟨rfl, .inr trivial⟩, fun hfull => absurd hfull (Nat.ne_of_lt hroom)⟩
  have hexec : (BjnpOp.allocate hostUri (some (answering 1, []))).exec .initial = .ok
      ⟨⟨false, -1, 0, 0, 1, 2048, 0, false, u8tohex [0, 0, 0, 0, 0, 1],
        some (.inet 8612 1), 0⟩ :: List.replicate 15 .zero, 1⟩ := by decide +kernel
  have hrun : Run (fun t op t' => BjnpOp.Safe t op ∧ op.exec t = .ok t') Table.initial
      ([] ++ [.allocate hostUri (some (answering 1, []))]) _ :=
    .snoc .nil ⟨hsafe .initial (by decide), hexec⟩
  obtain ⟨hle, -, -, hnext⟩ := allocate_device hrun
  exact ⟨_, hexec, hle, hnext _ _ (hsafe _ (by decide))⟩

/-- The answers of sixteen scanners, one for each call. -/
def fullRun : List BjnpOp :=
  (List.range 16).map fun n => .allocate hostUri (some (answering n, []))

/-- The table after some calls. -/
def runCalls (ops : List BjnpOp) : Except Fault Table :=
  ops.foldlM BjnpOp.exec .initial

/-- A host whose first address does not answer is added without a MAC address, although
    its second address is that of the first entry.  And with a full table the first of
    sixteen scanners is not found again. -/
theorem allocate_device_fails :
    (∃ t, runCalls [.allocate hostUri (some (answering 1, [])),
        .allocate hostUri (some (silent 2, [answering 1]))] = .ok t ∧
      t.committed.length = 2 ∧
      ¬ ∀ d ∈ t.committed, FilledFrom [answering 1, silent 2, answering 1] d) ∧
    ∃ t, runCalls fullRun = .ok t ∧ Known t.committed (answering 0) ∧
      bjnpAllocateDevice hostUri (some (answering 0, [])) t = .ok (.inval, t) := by
  refine ⟨⟨⟨⟨false, -1, 0, 0, 1, 2048, 0, false, u8tohex [0, 0, 0, 0, 0, 1],
      some (.inet 8612 1), 0⟩ :: ⟨false, -1, 0, 0, 1, 2048, 0, false, [],
      some (.inet 8612 2), 0⟩ :: List.replicate 14 .zero, 2⟩, by decide +kernel, rfl, ?_⟩, ?_⟩
  · intro h
    obtain ⟨a, ha, mac, hmac, haddr, -⟩ := h _ (List.mem_cons_of_mem _ List.mem_cons_self)
    simp only [List.mem_cons, List.not_mem_nil, or_false] at ha
    rcases ha with rfl | rfl | rfl
    · exact absurd haddr (by decide)
    · exact nomatch hmac
    · exact absurd haddr (by decide)
  · have hcheck : (match runCalls fullRun with
        | .ok t => decide (t.noDevices = BJNP_NO_DEVICES) &&
            t.committed.any fun d => saIsEqual d.addr (some (answering 0).sa)
        | .error _ => false) = true := by decide +kernel
    cases hrun : runCalls fullRun with
    | error e =>
      rw [hrun] at hcheck
      exact nomatch hcheck
    | ok t =>
      rw [hrun] at hcheck
      obtain ⟨hfull, hknown⟩ := (Bool.and_eq_true _ _).mp hcheck
      obtain ⟨d, hd, hsame⟩ := List.any_eq_true.mp hknown
      refine ⟨t, rfl, ⟨d, hd, .inl hsame⟩, ?_⟩
      have hloop : tryAddresses (ascii ['h']) [answering 0] t = (.inval, t) := by
        rw [tryAddresses, if_pos (of_decide_eq_true hfull)]
      simp only [bjnpAllocateDevice, hostUri_splits, bind, Except.bind, List.length_nil, ne_eq,
        not_true_eq_false, if_false, hloop]
      rfl

end SaneBackends.BjnpTable
