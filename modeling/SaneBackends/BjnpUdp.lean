import SaneBackends.SaneTypes
import SaneBackends.LabelledRun
import SaneBackends.Overwrite
import Mathlib.Logic.Function.Basic

/-!
# The UDP commands of the BJNP protocol

`set_cmd` and `udp_command` of `backend/pixma_bjnp.c`.  A command is sent at most three
times over a socket of its own, and the first datagram that can be read is the response.
The scanner and the network decide how the calls of `send`, `select` and `recv` end and
which datagrams arrive.
-/

namespace SaneBackends

open LabelledRun Overwrite

def BJNP_UDP_RETRY_MAX : Nat := 3
def BJNP_MAX_SELECT_ATTEMPTS : Nat := 3
def BJNP_RESP_MAX : Nat := 2048
def CMD_UDP_POLL : SaneByte := 0x32
def EINTR : Nat := 4

/-! ### Headers -/

/-- `htons (n)` in memory. -/
def bytesOfShort (n : BitVec 16) : List SaneByte := [(n >>> 8).setWidth 8, n.setWidth 8]

/-- `htonl (n)` in memory. -/
def bytesOfLong (n : BitVec 32) : List SaneByte := WordBytes.bytesBE n

/-- The bytes of the field `seq_no` in a buffer that begins with a header. -/
def seqNo (buf : List SaneByte) : List SaneByte := (buf.drop 8).take 2

/-- The fields of `device[devno]` that the commands use. -/
structure BjnpDevice where
  serial : BitVec 16
  sessionId : BitVec 32
  lastCmd : SaneByte
deriving DecidableEq, Repr

/-- The header that is put into a command buffer. -/
def bjnpHeader (cmdCode : SaneByte) (seq session : BitVec 16) (payloadLen : Nat) :
    List SaneByte :=
  [0x42, 0x4a, 0x4e, 0x50, 0x02, cmdCode, 0, 0] ++ bytesOfShort seq ++ bytesOfShort session
    ++ bytesOfLong (BitVec.ofNat 32 payloadLen)

/-- `set_cmd`; `none` stands for the number -1 of a device that is not open yet. -/
def setCmd (devices : Nat → BjnpDevice) (devNo : Option Nat) (cmdCode : SaneByte)
    (payloadLen : Nat) : (Nat → BjnpDevice) × List SaneByte :=
  match devNo with
  | none => (devices, bjnpHeader cmdCode 0 0 payloadLen)
  | some n =>
      let dev := { devices n with serial := (devices n).serial + 1, lastCmd := cmdCode }
      let session := if cmdCode = CMD_UDP_POLL then 0 else dev.sessionId.setWidth 16
      (Function.update devices n dev, bjnpHeader cmdCode dev.serial session payloadLen)

/-! ### Calls -/

inductive UdpPhase where
  | sending
  | selecting
  | receiving
deriving DecidableEq, Repr

/-- A call of `udp_command`.  `number` counts the commands of its device; no code
    reads it. -/
structure UdpCall where
  devNo : Nat
  number : Nat
  command : List SaneByte
  response : List SaneByte
  tries : Nat
  attempt : Nat
  phase : UdpPhase
deriving DecidableEq, Repr

/-- A call that has returned `len`, with the response buffer of the caller. -/
structure UdpReturn where
  devNo : Nat
  number : Nat
  command : List SaneByte
  response : List SaneByte
  len : Int
deriving DecidableEq, Repr

/-- `issued` holds the devices of all commands so far, `returns` the calls that have
    returned; no code reads these two. -/
structure BjnpState where
  devices : Nat → BjnpDevice
  call : Option UdpCall
  issued : List Nat
  returns : List UdpReturn

/-- What the callers ask for, and how the calls of the system end. -/
inductive BjnpEvent where
  /-- A caller fills a command and calls `udp_command` with its response buffer. -/
  | udpCommand (devNo : Nat) (cmdCode : SaneByte) (payload response : List SaneByte)
  /-- A command over the TCP connection; it takes a sequence number as well. -/
  | tcpCommand (devNo : Nat) (cmdCode : SaneByte) (payloadLen : Nat)
  /-- No socket can be set up for the call. -/
  | noSocket
  | sent (numbytes : Int)
  /-- `select` returns `result` and leaves `errno`. -/
  | selected (result : Int) (errno : Nat)
  | received (datagram : List SaneByte)
  | recvFailed
deriving DecidableEq, Repr

/-- The call returns. -/
def UdpCall.finish (c : UdpCall) (len : Int) (s : BjnpState) : BjnpState :=
  { s with
    call := none
    returns := ⟨c.devNo, c.number, c.command, c.response, len⟩ :: s.returns }

/-- The next turn of the `for` loop, or the end of it. -/
def UdpCall.again (c : UdpCall) (s : BjnpState) : BjnpState :=
  if c.tries + 1 < BJNP_UDP_RETRY_MAX then
    { s with call := some { c with tries := c.tries + 1, phase := .sending } }
  else c.finish (-1) s

/-- The condition of the loop around `select`. -/
def UdpCall.selectsAgain (c : UdpCall) (result : Int) (errno : Nat) : Bool :=
  decide (result ≤ 0 ∧ errno = EINTR ∧ c.attempt < BJNP_MAX_SELECT_ATTEMPTS ∧
    seqNo c.response ≠ seqNo c.command)

/-- What a datagram leaves in the response buffer. -/
def UdpCall.stored (c : UdpCall) (datagram : List SaneByte) : List SaneByte :=
  overwrite c.response 0 (datagram.take c.response.length)

def BjnpState.issue (s : BjnpState) (devNo : Nat) (cmdCode : SaneByte) (payloadLen : Nat) :
    BjnpState × List SaneByte :=
  let (devices, header) := setCmd s.devices (some devNo) cmdCode payloadLen
  ({ s with devices := devices, issued := devNo :: s.issued }, header)

/-- One step; `none` when the event cannot happen in the state. -/
def BjnpState.exec (s : BjnpState) : BjnpEvent → Option BjnpState
  | .udpCommand devNo cmdCode payload response =>
      if s.call = none ∧ response.length = BJNP_RESP_MAX then
        let r := s.issue devNo cmdCode payload.length
        some { r.1 with
          call := some ⟨devNo, r.1.issued.count devNo, r.2 ++ payload, response, 0, 0, .sending⟩ }
      else none
  | .tcpCommand devNo cmdCode payloadLen =>
      if s.call = none then some (s.issue devNo cmdCode payloadLen).1 else none
  | .noSocket =>
      match s.call with
      | some c => if c.phase = .sending ∧ c.tries = 0 then some (c.finish (-1) s) else none
      | none => none
  | .sent numbytes =>
      match s.call with
      | some c =>
          if c.phase = .sending then
            if numbytes ≠ c.command.length then some (c.again s)
            else some { s with call := some { c with attempt := 0, phase := .selecting } }
          else none
      | none => none
  | .selected result errno =>
      match s.call with
      | some c =>
          if c.phase = .selecting then
            if c.selectsAgain result errno then
              some { s with call := some { c with attempt := c.attempt + 1 } }
            else if result ≤ 0 then some (c.again s)
            else some { s with call := some { c with phase := .receiving } }
          else none
      | none => none
  | .received datagram =>
      match s.call with
      | some c =>
          if c.phase = .receiving then
            let len : Nat := min datagram.length c.response.length
            some ({ c with response := c.stored datagram }.finish len s)
          else none
      | none => none
  | .recvFailed =>
      match s.call with
      | some c => if c.phase = .receiving then some (c.again s) else none
      | none => none

/-- No command has been sent yet. -/
def BjnpState.initial (devices : Nat → BjnpDevice) : BjnpState := ⟨devices, none, [], []⟩

/-! ### What a step does -/

/-- The call has gone on to another turn or phase. -/
structure UdpCall.Same (c c' : UdpCall) : Prop where
  devNo : c'.devNo = c.devNo
  number : c'.number = c.number
  command : c'.command = c.command
  response : c'.response = c.response

theorem UdpCall.Same.turn (c : UdpCall) (tries attempt : Nat) (phase : UdpPhase) :
    c.Same { c with tries := tries, attempt := attempt, phase := phase } :=
  ⟨rfl, rfl, rfl, rfl⟩

theorem again_cases (c : UdpCall) (s : BjnpState) :
    (∃ c', c.Same c' ∧ c.again s = { s with call := some c' }) ∨ c.again s = c.finish (-1) s := by
  unfold UdpCall.again
  by_cases htries : c.tries + 1 < BJNP_UDP_RETRY_MAX
  · left
    rw [if_pos htries]
    exact ⟨_, .turn c (c.tries + 1) c.attempt .sending, rfl⟩
  · right
    rw [if_neg htries]

/-- A command is given, a call goes on, or it returns: with nothing, or with the datagram
    that has been received. -/
theorem exec_cases {s s' : BjnpState} {ev : BjnpEvent} (h : s.exec ev = some s') :
    (∃ devNo cmdCode payloadLen payload call, s.call = none ∧
      (∀ datagram, ev ≠ .received datagram) ∧
      (∀ c, call = some c → c.devNo = devNo ∧ c.number = s.issued.count devNo + 1 ∧
        c.command = (s.issue devNo cmdCode payloadLen).2 ++ payload ∧
        c.response.length = BJNP_RESP_MAX) ∧
      s' = { (s.issue devNo cmdCode payloadLen).1 with call := call }) ∨
    (∃ c, s.call = some c ∧ (∀ datagram, ev ≠ .received datagram) ∧
      ((∃ c', c.Same c' ∧ s' = { s with call := some c' }) ∨ s' = c.finish (-1) s)) ∨
    (∃ c datagram, s.call = some c ∧ ev = .received datagram ∧
      s' = { c with response := c.stored datagram }.finish
        (min datagram.length c.response.length : Nat) s) := by
  cases ev with
  | udpCommand devNo cmdCode payload response =>
    left
    simp only [BjnpState.exec] at h
    split_ifs at h with hcall
    cases h
    refine ⟨devNo, cmdCode, payload.length, payload, _, hcall.1, ?_, ?_, rfl⟩
    · exact fun datagram => BjnpEvent.noConfusion
    · rintro c hc
      cases hc
      exact ⟨rfl, List.count_cons_self, rfl, hcall.2⟩
  | tcpCommand devNo cmdCode payloadLen =>
    left
    simp only [BjnpState.exec] at h
    split_ifs at h with hcall
    cases h
    refine ⟨devNo, cmdCode, payloadLen, [], none, hcall, ?_, ?_, ?_⟩
    · exact fun datagram => BjnpEvent.noConfusion
    · exact fun c hc => absurd hc (by simp)
    · rw [BjnpState.issue, hcall]
  | noSocket =>
    right; left
    cases hcall : s.call with
    | none => simp [BjnpState.exec, hcall] at h
    | some c =>
      simp only [BjnpState.exec, hcall] at h
      split_ifs at h
      cases h
      exact ⟨c, rfl, fun datagram => BjnpEvent.noConfusion, .inr rfl⟩
  | sent numbytes =>
    right; left
    cases hcall : s.call with
    | none => simp [BjnpState.exec, hcall] at h
    | some c =>
      simp only [BjnpState.exec, hcall] at h
      refine ⟨c, rfl, fun datagram => BjnpEvent.noConfusion, ?_⟩
      split_ifs at h
      · cases h
        exact again_cases c s
      · cases h
        exact .inl ⟨_, .turn c c.tries 0 .selecting, rfl⟩
  | selected result errno =>
    right; left
    cases hcall : s.call with
    | none => simp [BjnpState.exec, hcall] at h
    | some c =>
      simp only [BjnpState.exec, hcall] at h
      refine ⟨c, rfl, fun datagram => BjnpEvent.noConfusion, ?_⟩
      split_ifs at h
      · cases h
        exact .inl ⟨_, .turn c c.tries (c.attempt + 1) c.phase, rfl⟩
      · cases h
        exact again_cases c s
      · cases h
        exact .inl ⟨_, .turn c c.tries c.attempt .receiving, rfl⟩
  | received datagram =>
    right; right
    cases hcall : s.call with
    | none => simp [BjnpState.exec, hcall] at h
    | some c =>
      simp only [BjnpState.exec, hcall] at h
      split_ifs at h
      cases h
      exact ⟨c, datagram, rfl, rfl, rfl⟩
  | recvFailed =>
    right; left
    cases hcall : s.call with
    | none => simp [BjnpState.exec, hcall] at h
    | some c =>
      simp only [BjnpState.exec, hcall] at h
      refine ⟨c, rfl, fun datagram => BjnpEvent.noConfusion, ?_⟩
      split_ifs at h
      cases h
      exact again_cases c s

/-! ### Sequence numbers -/

theorem bytesOfShort_injective : Function.Injective bytesOfShort := by
  intro m n h
  simp only [bytesOfShort, List.cons.injEq, and_true] at h
  obtain ⟨hhigh, hlow⟩ := h
  have hhigh' := congrArg BitVec.toNat hhigh
  have hlow' := congrArg BitVec.toNat hlow
  have hm := m.isLt
  have hn := n.isLt
  simp only [BitVec.toNat_setWidth, BitVec.toNat_ushiftRight, Nat.shiftRight_eq_div_pow] at hhigh' hlow'
  apply BitVec.eq_of_toNat_eq
  omega

theorem seqNo_header (cmdCode : SaneByte) (seq session : BitVec 16) (payloadLen : Nat)
    (payload : List SaneByte) :
    seqNo (bjnpHeader cmdCode seq session payloadLen ++ payload) = bytesOfShort seq := rfl

/-- The sequence number of the `k`-th command to a device. -/
def seqBytes (devices : Nat → BjnpDevice) (devNo k : Nat) : List SaneByte :=
  bytesOfShort ((devices devNo).serial + BitVec.ofNat 16 k)

/-- Two commands have the same number only if a whole round of numbers lies between. -/
theorem seqBytes_ne {devices : Nat → BjnpDevice} {devNo j k : Nat} (hjk : j < k)
    (hround : k < j + 2 ^ 16) : seqBytes devices devNo k ≠ seqBytes devices devNo j := by
  intro h
  have hsum := bytesOfShort_injective h
  have heq := congrArg BitVec.toNat (BitVec.add_right_inj _ |>.mp hsum)
  simp only [BitVec.toNat_ofNat] at heq
  omega

/-- The sequence numbers go on by one with each command. -/
structure BjnpState.Numbered (devices : Nat → BjnpDevice) (s : BjnpState) : Prop where
  serial : ∀ d, (s.devices d).serial = (devices d).serial + BitVec.ofNat 16 (s.issued.count d)
  call : ∀ c, s.call = some c → c.response.length = BJNP_RESP_MAX ∧
    seqNo c.command = seqBytes devices c.devNo c.number
  returns : ∀ r ∈ s.returns, seqNo r.command = seqBytes devices r.devNo r.number

theorem issue_serial {devices : Nat → BjnpDevice} {s : BjnpState} (hs : s.Numbered devices)
    (devNo : Nat) (cmdCode : SaneByte) (payloadLen : Nat) (d : Nat) :
    ((s.issue devNo cmdCode payloadLen).1.devices d).serial =
      (devices d).serial +
        BitVec.ofNat 16 ((s.issue devNo cmdCode payloadLen).1.issued.count d) := by
  simp only [BjnpState.issue, setCmd]
  by_cases hd : d = devNo
  · subst hd
    rw [Function.update_self, List.count_cons_self, hs.serial d, BitVec.ofNat_add]
    exact BitVec.add_assoc _ _ _
  · rw [Function.update_of_ne hd, List.count_cons_of_ne (Ne.symm hd)]
    exact hs.serial d

theorem finish_numbered {devices : Nat → BjnpDevice} {s : BjnpState} (hs : s.Numbered devices)
    {c : UdpCall} {len : Int} (hc : seqNo c.command = seqBytes devices c.devNo c.number) :
    (c.finish len s).Numbered devices := by
  refine ⟨hs.serial, fun c' hc' => ?_, fun r hr => ?_⟩
  · cases hc'
  · rcases List.mem_cons.mp hr with rfl | hr
    · exact hc
    · exact hs.returns r hr

theorem exec_numbered {devices : Nat → BjnpDevice} {s s' : BjnpState} {ev : BjnpEvent}
    (hs : s.Numbered devices) (h : s.exec ev = some s') : s'.Numbered devices := by
  rcases exec_cases h with ⟨devNo, cmdCode, payloadLen, payload, call, -, -, hcall, rfl⟩ |
    ⟨c, hc, -, ⟨c', hsame, rfl⟩ | rfl⟩ | ⟨c, datagram, hc, rfl, rfl⟩
  · have hserial := issue_serial hs devNo cmdCode payloadLen
    refine ⟨hserial, fun c hc => ?_, hs.returns⟩
    obtain ⟨hdev, hnumber, hcommand, hlength⟩ := hcall c hc
    refine ⟨hlength, ?_⟩
    have hnext := hserial devNo
    simp only [BjnpState.issue, setCmd, Function.update_self, List.count_cons_self] at hnext
    rw [hcommand, hdev, hnumber, seqBytes, ← hnext]
    exact seqNo_header _ _ _ _ _
  · obtain ⟨hlength, hseq⟩ := hs.call c hc
    refine ⟨hs.serial, fun c'' hc'' => ?_, hs.returns⟩
    cases hc''
    rw [hsame.response, hsame.command, hsame.devNo, hsame.number]
    exact ⟨hlength, hseq⟩
  · exact finish_numbered hs (hs.call c hc).2
  · exact finish_numbered hs (hs.call c hc).2

/-! ### Responses -/

/-- A response that is not empty carries the number of its command. -/
def UdpReturn.Right (r : UdpReturn) : Prop := 0 < r.len → seqNo r.response = seqNo r.command

/-- The datagram carries the number of the command, or is empty.  The field is looked at in
    the buffer, where a datagram of less than ten bytes leaves old ones behind it. -/
def UdpCall.Answers (c : UdpCall) (datagram : List SaneByte) : Prop :=
  datagram = [] ∨ seqNo (c.stored datagram) = seqNo c.command

/-- A datagram that is read answers the command that waits. -/
def BjnpState.Answered (s : BjnpState) : BjnpEvent → Prop
  | .received datagram => ∀ c, s.call = some c → c.Answers datagram
  | _ => True

theorem answered_of_ne {s : BjnpState} {ev : BjnpEvent}
    (hev : ∀ datagram, ev ≠ .received datagram) : s.Answered ev := by
  cases ev with
  | received datagram => exact absurd rfl (hev datagram)
  | _ => trivial

theorem initial_numbered (devices : Nat → BjnpDevice) :
    (BjnpState.initial devices).Numbered devices ∧
      ∀ r ∈ (BjnpState.initial devices).returns, r.Right := by
  refine ⟨⟨fun d => ?_, fun c hc => ?_, fun r hr => ?_⟩, fun r hr => ?_⟩
  · exact (BitVec.add_zero _).symm
  · cases hc
  · exact absurd hr List.not_mem_nil
  · exact absurd hr List.not_mem_nil

theorem exec_right {devices : Nat → BjnpDevice} {s s' : BjnpState} {ev : BjnpEvent}
    (hs : s.Numbered devices) (hright : ∀ r ∈ s.returns, r.Right) (h : s.exec ev = some s') :
    (∀ r ∈ s'.returns, r.Right) ↔ s.Answered ev := by
  rcases exec_cases h with ⟨devNo, cmdCode, payloadLen, payload, call, -, hev, -, rfl⟩ |
    ⟨c, -, hev, ⟨c', -, rfl⟩ | rfl⟩ | ⟨c, datagram, hc, rfl, rfl⟩
  · exact iff_of_true hright (answered_of_ne hev)
  · exact iff_of_true hright (answered_of_ne hev)
  · refine iff_of_true (fun r hr => ?_) (answered_of_ne hev)
    rcases List.mem_cons.mp hr with rfl | hr
    · intro hpos
      exact absurd (show (0 : Int) < -1 from hpos) (by decide)
    · exact hright r hr
  · have hlength := (hs.call c hc).1
    have hpos : (0 : Int) < (min datagram.length c.response.length : Nat) ↔ datagram ≠ [] := by
      have hmax : BJNP_RESP_MAX = 2048 := rfl
      rw [← List.length_pos_iff]
      omega
    constructor
    · intro hall c' hc'
      rw [hc] at hc'
      cases hc'
      have hlast := hall _ List.mem_cons_self
      by_cases hempty : datagram = []
      · exact .inl hempty
      · exact .inr (hlast (show (0 : Int) < _ from hpos.mpr hempty))
    · intro hanswered r hr
      rcases List.mem_cons.mp hr with rfl | hr
      · intro hlen
        exact (hanswered c hc).resolve_left (hpos.mp hlen)
      · exact hright r hr

/-- One step in which a datagram that is read answers the command. -/
def BjnpStep (s : BjnpState) (ev : BjnpEvent) (s' : BjnpState) : Prop :=
  s.exec ev = some s' ∧ s.Answered ev

/-- As long as every datagram that is read answers the command that waits, every response
    carries the number of its command, and of none of the commands to the device before it,
    a whole round of numbers back; and the next step keeps this exactly if it goes on so. -/
theorem udp_answers (devices : Nat → BjnpDevice) (evs : List BjnpEvent) (s : BjnpState)
    (hrun : Run BjnpStep (BjnpState.initial devices) evs s) :
    (∀ r ∈ s.returns, r.Right ∧ seqNo r.command = seqBytes devices r.devNo r.number ∧
      (0 < r.len → ∀ k, k < r.number → r.number < k + 2 ^ 16 →
        seqNo r.response ≠ seqBytes devices r.devNo k)) ∧
    ∀ ev s', s.exec ev = some s' → ((∀ r ∈ s'.returns, r.Right) ↔ s.Answered ev) := by
  have hinv := hrun.invariant (I := fun s => s.Numbered devices ∧ ∀ r ∈ s.returns, r.Right)
  obtain ⟨hs, hright⟩ := hinv (initial_numbered devices) fun s ev s' ⟨hs, hright⟩ ⟨hstep, hev⟩ =>
    ⟨exec_numbered hs hstep, (exec_right hs hright hstep).mpr hev⟩
  refine ⟨fun r hr => ⟨hright r hr, hs.returns r hr, fun hlen k hk hround => ?_⟩,
    fun ev s' hstep => exec_right hs hright hstep⟩
  rw [hright r hr hlen, hs.returns r hr]
  exact seqBytes_ne hk hround

/-! ### Two runs -/

instance (c : UdpCall) (datagram : List SaneByte) : Decidable (c.Answers datagram) :=
  inferInstanceAs (Decidable (_ ∨ _))

instance (s : BjnpState) (ev : BjnpEvent) : Decidable (s.Answered ev) :=
  match ev, hcall : s.call with
  | .received datagram, some c =>
      decidable_of_iff (c.Answers datagram) (by simp [BjnpState.Answered, hcall])
  | .received datagram, none => isTrue (by simp [BjnpState.Answered, hcall])
  | .udpCommand .., _ | .tcpCommand .., _ | .noSocket, _ | .sent _, _ | .selected .., _
  | .recvFailed, _ => isTrue trivial

/-- A step that is taken only if a datagram that is read answers the command. -/
def BjnpState.execAnswered (s : BjnpState) (ev : BjnpEvent) : Option BjnpState :=
  if s.Answered ev then s.exec ev else none

theorem step_of_execAnswered {s s' : BjnpState} {ev : BjnpEvent}
    (h : s.execAnswered ev = some s') : BjnpStep s ev s' := by
  unfold BjnpState.execAnswered at h
  split_ifs at h with hanswered
  exact ⟨h, hanswered⟩

def newDevices : Nat → BjnpDevice := fun _ => ⟨0, 5, 0⟩

/-- A command is given and sent; the buffer for the response is not initialised. -/
def identify : List BjnpEvent :=
  [.udpCommand 0 0x30 [] (List.replicate 2048 0xff), .sent 16]

/-- The answer to the command with sequence number `n`. -/
def identityAnswer (n : BitVec 16) : List SaneByte := bjnpHeader 0x30 n 0 0

/-- The first try times out, and waiting in the second one is interrupted. -/
def answeredRun : List BjnpEvent :=
  identify ++ [.selected 0 0, .sent 16, .selected (-1) EINTR, .selected 1 EINTR,
    .received (identityAnswer 1)]

theorem udp_answers_identify :
    ∃ s, Run BjnpStep (BjnpState.initial newDevices) answeredRun s ∧
      s.returns.map (fun r => (r.number, r.len)) = [(1, 16)] ∧ ∀ r ∈ s.returns, r.Right := by
  have hruns : ((runAll BjnpState.execAnswered answeredRun (BjnpState.initial newDevices)).map
      fun s => s.returns.map fun r => (r.number, r.len)) = some [(1, 16)] := by decide +kernel
  obtain ⟨s, hs, hreturns⟩ := Option.map_eq_some_iff.mp hruns
  have hrun := Run.nil.runAll (fun _ _ _ => step_of_execAnswered) hs
  refine ⟨s, hrun, hreturns, fun r hr => ?_⟩
  exact ((udp_answers newDevices _ s hrun).1 r hr).1

/-- A second command is given, and the answer to the first one comes again. -/
def staleRun : List BjnpEvent :=
  answeredRun ++ identify ++ [.selected 1 0, .received (identityAnswer 1)]

theorem udp_answers_stale :
    ∃ s r, Run (fun s ev s' => s.exec ev = some s') (BjnpState.initial newDevices) staleRun s ∧
      r ∈ s.returns ∧ 0 < r.len ∧ r.number = 2 ∧ seqNo r.command = [0, 2] ∧
      seqNo r.response = [0, 1] ∧ ¬ r.Right := by
  have hruns : ((runAll BjnpState.exec staleRun (BjnpState.initial newDevices)).bind
      fun s => s.returns.head?.map fun r => (r.number, r.len, seqNo r.command, seqNo r.response)) =
        some (2, 16, [0, 2], [0, 1]) := by decide +kernel
  obtain ⟨s, hs, hhead⟩ := Option.bind_eq_some_iff.mp hruns
  obtain ⟨r, hr, hfields⟩ := Option.map_eq_some_iff.mp hhead
  simp only [Prod.mk.injEq] at hfields
  obtain ⟨hnumber, hlen, hcommand, hresponse⟩ := hfields
  have hpos : 0 < r.len := by
    rw [hlen]
    decide
  refine ⟨s, r, Run.nil.runAll (fun _ _ _ h => h) hs, List.mem_of_head? hr, hpos, hnumber,
    hcommand, hresponse, fun hright => ?_⟩
  have heq := hright hpos
  rw [hcommand, hresponse] at heq
  exact absurd heq (by decide)

end SaneBackends
