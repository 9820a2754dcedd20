import SaneBackends.BjnpBulk
import Mathlib.Logic.Relation

/-!
# Bulk reads over a BJNP connection

`sanei_bjnp_read_bulk` of `backend/pixma_bjnp.c` with `bjnp_send_read_request`,
`bjnp_recv_header` and `bjnp_recv_data`.  The scanner is asked for blocks until enough bytes have
arrived or a block is shorter than those before it.  A peer that has closed the connection can
always be read from, but nothing comes.  For a scanner that answers in segments it is the
function of the bulk transfers.
-/

namespace SaneBackends

open Relation

def CMD_TCP_REQ : SaneByte := 0x20

/-! ### The connection -/

/-- How a call of `select` ends, and the call of `recv` that follows it if there is something to
    read.  `unready` stands for a failure or the end of the time, with the `errno` of then. -/
inductive Arrival where
  | unready (errno : Nat)
  | readable (data : Option (List SaneByte))
deriving DecidableEq, Repr

/-- What the calls of `send` return, one after the other, and what arrives. -/
structure TcpConnection where
  sent : Nat → Int
  arrival : Nat → Arrival

/-- The state of the device and of a call of `sanei_bjnp_read_bulk`; `sends` and `waits` count the
    calls of `send` and `select`, `received` is what stands in the buffer. -/
structure BulkReception where
  device : BjnpDevice
  scannerDataLeft : Nat
  blocksize : Nat
  lastBlock : Bool
  sends : Nat
  waits : Nat
  received : List SaneByte
deriving DecidableEq, Repr

/-- Wait for data and receive at most `len` bytes, with so many retries left on a signal. -/
def TcpConnection.recv (conn : TcpConnection) (len : Nat) : Nat → Nat → Option (List SaneByte) × Nat
  | retries, k =>
    match conn.arrival k with
    | .readable data => (data.map (·.take len), k + 1)
    | .unready errno =>
      match retries with
      | 0 => (none, k + 1)
      | retries + 1 => if errno = EINTR then conn.recv len retries (k + 1) else (none, k + 1)

/-- `bjnp_send_read_request`; whether the request could be sent. -/
def BulkReception.sendRequest (conn : TcpConnection) (s : BulkReception) : Bool × BulkReception :=
  (decide (¬ conn.sent s.sends < 0),
    { s with
      device := { s.device with serial := s.device.serial + 1, lastCmd := CMD_TCP_REQ }
      sends := s.sends + 1 })

/-- The length in a header that answers the last command. -/
def BjnpDevice.payloadLen (device : BjnpDevice) (header : List SaneByte) : Option Nat :=
  if header.length = 16 ∧ header.getD 5 0 = device.lastCmd ∧
      seqNo header = bytesOfShort device.serial then
    some ((header.drop 12).foldl (fun n b => 256 * n + b.toNat) 0)
  else none

/-- `bjnp_recv_header` -/
def BulkReception.recvHeader (conn : TcpConnection) (s : BulkReception) :
    Option Nat × BulkReception :=
  let (data, waits) := conn.recv 16 BJNP_MAX_SELECT_ATTEMPTS s.waits
  let size := data.bind s.device.payloadLen
  (size, { s with waits := waits, scannerDataLeft := size.getD 0 })

/-! ### The loop -/

/-- What a turn of the loop does. -/
inductive BulkTurn where
  | goesOn (s : BulkReception)
  | breaks (s : BulkReception)
  | fails (s : BulkReception)
deriving DecidableEq, Repr

/-- `bjnp_recv_data`, and the end of a turn. -/
def BulkReception.recvData (conn : TcpConnection) (requested : Nat) (s : BulkReception) :
    BulkTurn :=
  let more := min s.scannerDataLeft (requested - s.received.length)
  match conn.recv more BJNP_MAX_SELECT_ATTEMPTS s.waits with
  | (none, waits) => .fails { s with waits := waits }
  | (some bs, waits) =>
    .goesOn { s with
      waits := waits
      scannerDataLeft := s.scannerDataLeft - bs.length
      received := s.received ++ bs }

/-- What the header of a block says.  A block that is shorter than the longest one so far is the
    last. -/
def BulkReception.noteBlock (s : BulkReception) : BulkReception :=
  { s with
    blocksize := max s.blocksize s.scannerDataLeft
    lastBlock := s.lastBlock || decide (s.scannerDataLeft < max s.blocksize s.scannerDataLeft) }

/-- The first half of a turn: it goes on when there are bytes of a block to be received. -/
def BulkReception.awaitBlock (conn : TcpConnection) (s : BulkReception) : BulkTurn :=
  if s.scannerDataLeft = 0 then
    match s.sendRequest conn with
    | (false, s) => .fails s
    | (true, s) =>
      match s.recvHeader conn with
      | (none, s) => .fails s
      | (some _, s) =>
        if s.noteBlock.scannerDataLeft = 0 then .breaks s.noteBlock else .goesOn s.noteBlock
  else .goesOn s

/-- A turn of the loop. -/
def BulkReception.turn (conn : TcpConnection) (requested : Nat) (s : BulkReception) : BulkTurn :=
  match s.awaitBlock conn with
  | .goesOn s => s.recvData conn requested
  | t => t

/-- The condition of the loop. -/
def BulkReception.wantsMore (s : BulkReception) (requested : Nat) : Prop :=
  s.received.length < requested ∧ ¬ (s.lastBlock = true ∧ s.scannerDataLeft = 0)

instance (s : BulkReception) (requested : Nat) : Decidable (s.wantsMore requested) :=
  inferInstanceAs (Decidable (_ ∧ _))

/-- The end of the function. -/
def BulkReception.finish (s : BulkReception) : SaneStatus × BulkReception :=
  (if s.received.length = 0 then .eof else .good, s)

/-- `sanei_bjnp_read_bulk` for `requested` bytes, at most so many turns of the loop. -/
def saneiBjnpReadBulk (conn : TcpConnection) (requested : Nat) :
    Nat → BulkReception → Option (SaneStatus × BulkReception)
  | 0, _ => none
  | turns + 1, s =>
    if s.wantsMore requested then
      match s.turn conn requested with
      | .goesOn s => saneiBjnpReadBulk conn requested turns s
      | .breaks s => some s.finish
      | .fails s => some (.ioError, s)
    else some s.finish

/-! ### When it ends -/

variable {conn : TcpConnection} {requested k : Nat} {s s' t : BulkReception}

/-- After an orderly close the connection can be read from, and the end of the data is all that
    comes. -/
def TcpConnection.Orderly (conn : TcpConnection) : Prop :=
  ∀ k, conn.arrival k = .readable (some []) → ∀ j, k ≤ j → conn.arrival j = .readable (some [])

/-- From some call on nothing comes any more. -/
def TcpConnection.Closed (conn : TcpConnection) (k : Nat) : Prop :=
  ∀ j, k ≤ j → conn.arrival j = .readable (some [])

/-- The loop goes from one turn to the next. -/
def BulkReception.Turns (conn : TcpConnection) (requested : Nat) (s s' : BulkReception) : Prop :=
  s.wantsMore requested ∧ s.turn conn requested = .goesOn s'

/-- `recv` returns 0 for the bytes of a block. -/
def BulkReception.ReceivesNothing (conn : TcpConnection) (requested : Nat) (s : BulkReception) :
    Prop :=
  s.wantsMore requested ∧ ∃ t, s.awaitBlock conn = .goesOn t ∧
    (conn.recv (min t.scannerDataLeft (requested - t.received.length)) BJNP_MAX_SELECT_ATTEMPTS
      t.waits).1 = some []

/-- What is reported: the bytes that have been received, or an error. -/
structure Reports (requested : Nat) (status : SaneStatus) (s : BulkReception) : Prop where
  length_le : s.received.length ≤ requested
  status_eq : status = .ioError ∨ status = if s.received = [] then .eof else .good

/-- What there is before bytes are received. -/
theorem awaitBlock_cases (conn : TcpConnection) (s : BulkReception) :
    (∃ t, s.awaitBlock conn = .goesOn t ∧ t.received = s.received ∧ 0 < t.scannerDataLeft) ∨
      (∃ t, s.awaitBlock conn = .breaks t ∧ t.received = s.received) ∨
      ∃ t, s.awaitBlock conn = .fails t ∧ t.received = s.received := by
  rw [BulkReception.awaitBlock]
  split
  · rw [BulkReception.sendRequest]
    split
    · rename_i t ht
      obtain ⟨-, rfl⟩ := Prod.mk.inj ht
      exact .inr (.inr ⟨_, rfl, rfl⟩)
    · rename_i t ht
      obtain ⟨-, rfl⟩ := Prod.mk.inj ht
      rw [BulkReception.recvHeader]
      split
      · rename_i t ht
        obtain ⟨-, rfl⟩ := Prod.mk.inj ht
        exact .inr (.inr ⟨_, rfl, rfl⟩)
      · rename_i t ht
        obtain ⟨-, rfl⟩ := Prod.mk.inj ht
        split
        · exact .inr (.inl ⟨_, rfl, rfl⟩)
        · rename_i hleft
          exact .inl ⟨_, rfl, rfl, Nat.pos_of_ne_zero hleft⟩
  · rename_i hleft
    exact .inl ⟨s, rfl, rfl, Nat.pos_of_ne_zero hleft⟩

theorem recv_length_le {len retries : Nat} {bs : List SaneByte}
    (h : (conn.recv len retries k).1 = some bs) : bs.length ≤ len := by
  induction retries generalizing k with
  | zero =>
    rw [TcpConnection.recv] at h
    split at h
    · rename_i data _
      obtain ⟨bs', -, rfl⟩ := Option.map_eq_some_iff.mp h
      exact List.length_take_le len bs'
    · cases h
  | succ retries ih =>
    rw [TcpConnection.recv] at h
    split at h
    · rename_i data _
      obtain ⟨bs', -, rfl⟩ := Option.map_eq_some_iff.mp h
      exact List.length_take_le len bs'
    · dsimp only at h
      split at h
      · exact ih h
      · cases h

/-- What a turn of the loop can do. -/
theorem turn_cases (h : s.wantsMore requested) :
    (∃ t, s.turn conn requested = .goesOn t ∧ t.received.length ≤ requested ∧
      (s.received.length < t.received.length ∨ s.ReceivesNothing conn requested)) ∨
      (∃ t, s.turn conn requested = .breaks t ∧ t.received = s.received) ∨
      ∃ t, s.turn conn requested = .fails t ∧ t.received = s.received := by
  rw [BulkReception.turn]
  rcases awaitBlock_cases conn s with ⟨t, ht, hsame, hleft⟩ | ⟨t, ht, hsame⟩ | ⟨t, ht, hsame⟩
  · rw [ht]
    dsimp only
    rw [BulkReception.recvData]
    split
    · exact .inr (.inr ⟨_, rfl, hsame⟩)
    · rename_i bs waits hrecv
      have hfst : (conn.recv (min t.scannerDataLeft (requested - t.received.length))
          BJNP_MAX_SELECT_ATTEMPTS t.waits).1 = some bs := by rw [hrecv]
      have hlen := recv_length_le hfst
      have hlt := h.1
      refine .inl ⟨_, rfl, ?_, ?_⟩
      · dsimp only
        rw [List.length_append, hsame]
        rw [hsame] at hlen
        omega
      · cases bs with
        | nil => exact .inr ⟨h, t, ht, hfst⟩
        | cons b bs =>
          left
          dsimp only
          rw [List.length_append, hsame, List.length_cons]
          omega
  · rw [ht]
    exact .inr (.inl ⟨t, rfl, hsame⟩)
  · rw [ht]
    exact .inr (.inr ⟨t, rfl, hsame⟩)

/-- Whenever the function returns, it reports what it has received, or an error. -/
theorem saneiBjnpReadBulk_reports {turns : Nat} {status : SaneStatus}
    (hlen : s.received.length ≤ requested)
    (h : saneiBjnpReadBulk conn requested turns s = some (status, s')) :
    Reports requested status s' := by
  induction turns generalizing s with
  | zero => cases h
  | succ turns ih =>
    have hfinish : ∀ t : BulkReception, t.received.length ≤ requested →
        some t.finish = some (status, s') → Reports requested status s' := by
      intro t ht heq
      obtain ⟨hstatus, rfl⟩ := Prod.mk.inj (Option.some.inj heq)
      refine ⟨ht, .inr ?_⟩
      rw [← hstatus]
      simp only [List.length_eq_zero_iff]
    rw [saneiBjnpReadBulk] at h
    split at h
    · rename_i hmore
      rcases @turn_cases conn _ _ hmore with ⟨t, ht, hle, -⟩ | ⟨t, ht, hsame⟩ | ⟨t, ht, hsame⟩
      · rw [ht] at h
        exact ih hle h
      · rw [ht] at h
        exact hfinish t (hsame ▸ hlen) h
      · rw [ht] at h
        obtain ⟨rfl, rfl⟩ := Prod.mk.inj (Option.some.inj h)
        exact ⟨hsame ▸ hlen, .inl rfl⟩
    · exact hfinish s hlen h

/-- As long as bytes come, every turn brings the end nearer. -/
theorem saneiBjnpReadBulk_ends
    (hall : ∀ t, ReflTransGen (BulkReception.Turns conn requested) s t →
      ¬ t.ReceivesNothing conn requested) {turns : Nat}
    (hturns : requested - s.received.length < turns) :
    ∃ r, saneiBjnpReadBulk conn requested turns s = some r := by
  induction turns generalizing s with
  | zero => omega
  | succ turns ih =>
    rw [saneiBjnpReadBulk]
    split
    · rename_i hmore
      have hlt := hmore.1
      rcases @turn_cases conn _ _ hmore with ⟨t, ht, -, hgrows | hnothing⟩ | ⟨t, ht, -⟩ | ⟨t, ht, -⟩
      · rw [ht]
        refine ih (fun u hu => hall u (.head ⟨hmore, ht⟩ hu)) ?_
        omega
      · exact absurd hnothing (hall s .refl)
      · rw [ht]
        exact ⟨_, rfl⟩
      · rw [ht]
        exact ⟨_, rfl⟩
    · exact ⟨_, rfl⟩

/-! ### When it does not -/

/-- Bytes of a block are outstanding on a connection that is closed. -/
structure BulkReception.Stuck (conn : TcpConnection) (requested : Nat) (s : BulkReception) :
    Prop where
  length_lt : s.received.length < requested
  left_pos : 0 < s.scannerDataLeft
  closed : conn.Closed s.waits

theorem recv_closed (h : conn.Closed k) (len retries : Nat) :
    conn.recv len retries k = (some [], k + 1) := by
  have htake : Option.map (fun bs : List SaneByte => bs.take len) (some []) = some [] := by
    rw [Option.map_some, List.take_nil]
  cases retries with
  | zero =>
    rw [TcpConnection.recv, h k le_rfl]
    exact congrArg (·, k + 1) htake
  | succ retries =>
    rw [TcpConnection.recv, h k le_rfl]
    exact congrArg (·, k + 1) htake

/-- If nothing is received where something could be, the connection is closed. -/
theorem closed_of_recv_nil (horderly : conn.Orderly) {len retries : Nat} (hlen : 0 < len)
    (h : (conn.recv len retries k).1 = some []) : conn.Closed (conn.recv len retries k).2 := by
  have hreadable : ∀ {k : Nat} {data : Option (List SaneByte)},
      conn.arrival k = .readable data → data.map (·.take len) = some [] → conn.Closed (k + 1) := by
    intro k data hk hdata j hj
    obtain ⟨bs, rfl, hbs⟩ := Option.map_eq_some_iff.mp hdata
    rcases List.take_eq_nil_iff.mp hbs with hzero | rfl
    · omega
    · exact horderly k hk j (Nat.le_of_succ_le hj)
  induction retries generalizing k with
  | zero =>
    rw [TcpConnection.recv] at h ⊢
    split at h
    · rename_i data hk
      dsimp only
      exact hreadable hk h
    · cases h
  | succ retries ih =>
    rw [TcpConnection.recv] at h ⊢
    split at h
    · rename_i data hk
      dsimp only
      exact hreadable hk h
    · rename_i errno hk
      dsimp only
      dsimp only at h
      split at h
      · rename_i hintr
        rw [if_pos hintr]
        exact ih h
      · cases h

/-- A turn that has received nothing leaves the loop stuck. -/
theorem stuck_of_receivesNothing (horderly : conn.Orderly) (h : s.ReceivesNothing conn requested) :
    ∃ t, s.turn conn requested = .goesOn t ∧ t.Stuck conn requested := by
  obtain ⟨hmore, t, ht, hnothing⟩ := h
  have hlt := hmore.1
  rcases awaitBlock_cases conn s with ⟨t', ht', hsame, hleft⟩ | ⟨t', ht', -⟩ | ⟨t', ht', -⟩
  · rw [ht] at ht'
    cases ht'
    have hpos : 0 < min t.scannerDataLeft (requested - t.received.length) := by
      rw [hsame]
      omega
    have hclosed := closed_of_recv_nil horderly hpos hnothing
    rw [BulkReception.turn, ht]
    dsimp only
    rw [BulkReception.recvData]
    split
    · rename_i hrecv
      rw [hrecv] at hnothing
      cases hnothing
    · rename_i bs waits hrecv
      rw [hrecv] at hnothing hclosed
      obtain rfl : bs = [] := Option.some.inj hnothing
      refine ⟨_, rfl, ?_, hleft, hclosed⟩
      dsimp only
      rw [List.append_nil, hsame]
      exact hlt
  · rw [ht] at ht'
    cases ht'
  · rw [ht] at ht'
    cases ht'

theorem BulkReception.Stuck.receivesNothing (h : s.Stuck conn requested) :
    s.ReceivesNothing conn requested := by
  refine ⟨⟨h.length_lt, fun hdone => h.left_pos.ne' hdone.2⟩, s, ?_, ?_⟩
  · rw [BulkReception.awaitBlock, if_neg h.left_pos.ne']
  · rw [recv_closed h.closed]

/-- Then the loop goes on for ever. -/
theorem BulkReception.Stuck.diverges (horderly : conn.Orderly) (h : s.Stuck conn requested)
    (turns : Nat) : saneiBjnpReadBulk conn requested turns s = none := by
  induction turns generalizing s with
  | zero => rfl
  | succ turns ih =>
    obtain ⟨t, ht, hstuck⟩ := stuck_of_receivesNothing horderly h.receivesNothing
    rw [saneiBjnpReadBulk, if_pos h.receivesNothing.1, ht]
    exact ih hstuck

/-- A loop that diverges in one turn has diverged before. -/
theorem diverges_of_turns (h : ReflTransGen (BulkReception.Turns conn requested) s t)
    (ht : ∀ turns, saneiBjnpReadBulk conn requested turns t = none) (turns : Nat) :
    saneiBjnpReadBulk conn requested turns s = none := by
  induction h using ReflTransGen.head_induction_on generalizing turns with
  | refl => exact ht turns
  | head hstep _ ih =>
    cases turns with
    | zero => rfl
    | succ turns =>
      rw [saneiBjnpReadBulk, if_pos hstep.1, hstep.2]
      exact ih turns

/-- A bulk read returns, and reports what it has received or an error, exactly if the peer does
    not close the connection while bytes of a block are outstanding. -/
theorem saneiBjnpReadBulk_iff (horderly : conn.Orderly) (hstart : s.received = []) :
    (∃ turns status s', saneiBjnpReadBulk conn requested turns s = some (status, s') ∧
      Reports requested status s') ↔
    ∀ t, ReflTransGen (BulkReception.Turns conn requested) s t →
      ¬ t.ReceivesNothing conn requested := by
  constructor
  · rintro ⟨turns, status, s', hreturns, -⟩ t hreach hnothing
    obtain ⟨u, hu, hstuck⟩ := stuck_of_receivesNothing horderly hnothing
    have hnone := diverges_of_turns (hreach.tail ⟨hnothing.1, hu⟩) (hstuck.diverges horderly) turns
    rw [hnone] at hreturns
    cases hreturns
  · intro hall
    obtain ⟨r, hr⟩ := saneiBjnpReadBulk_ends hall (Nat.lt_succ_self _)
    have hlen : s.received.length ≤ requested := hstart ▸ Nat.zero_le requested
    exact ⟨_, r.1, r.2, hr, saneiBjnpReadBulk_reports hlen hr⟩

/-- A call of a device that has sent no command yet. -/
def firstRead : BulkReception := ⟨⟨0, 5, 0⟩, 0, 2048, false, 0, 0, []⟩

/-- The header of a block of three bytes, then `data`, then what `rest` says. -/
def threeBytes (data : List SaneByte) (rest : Arrival) : TcpConnection where
  sent _ := 16
  arrival k :=
    match k with
    | 0 => .readable (some (bjnpHeader CMD_TCP_REQ 1 5 3))
    | 1 => .readable (some data)
    | _ => rest

theorem saneiBjnpReadBulk_three :
    (saneiBjnpReadBulk (threeBytes [7, 8, 9] (.unready 0)) 5 4 firstRead).map
        (fun r => (r.1, r.2.received)) = some (.good, [7, 8, 9]) ∧
      ∀ t, ReflTransGen (BulkReception.Turns (threeBytes [7, 8, 9] (.unready 0)) 5) firstRead t →
        ¬ t.ReceivesNothing (threeBytes [7, 8, 9] (.unready 0)) 5 := by
  have horderly : (threeBytes [7, 8, 9] (.unready 0)).Orderly := by
    intro k hk
    match k with
    | 0 => cases hk
    | 1 => cases hk
    | k + 2 => cases hk
  have hreturns : (saneiBjnpReadBulk (threeBytes [7, 8, 9] (.unready 0)) 5 4 firstRead).map
      (fun r => (r.1, r.2.received)) = some (.good, [7, 8, 9]) := by decide +kernel
  obtain ⟨⟨status, t⟩, hr, -⟩ := Option.map_eq_some_iff.mp hreturns
  have hlen : firstRead.received.length ≤ 5 := by decide
  exact ⟨hreturns, (saneiBjnpReadBulk_iff horderly rfl).mp
    ⟨4, status, t, hr, saneiBjnpReadBulk_reports hlen hr⟩⟩

/-- The scanner closes the connection behind the header of a block. -/
theorem saneiBjnpReadBulk_closed : (threeBytes [] (.readable (some []))).Orderly ∧
    ∀ turns, saneiBjnpReadBulk (threeBytes [] (.readable (some []))) 5 turns firstRead = none := by
  have horderly : (threeBytes [] (.readable (some []))).Orderly := by
    intro k hk j hj
    match k, j with
    | 0, _ => cases hk
    | k + 1, 0 => exact absurd hj (Nat.not_succ_le_zero k)
    | _, 1 => rfl
    | _, j + 2 => rfl
  refine ⟨horderly, fun turns => ?_⟩
  have hnothing : firstRead.ReceivesNothing (threeBytes [] (.readable (some []))) 5 :=
    ⟨by decide, _, rfl, by decide +kernel⟩
  obtain ⟨t, ht, hstuck⟩ := stuck_of_receivesNothing horderly hnothing
  exact diverges_of_turns (.single ⟨hnothing.1, ht⟩) (hstuck.diverges horderly) turns

/-! ### The scanner that answers in segments -/

section
open BjnpBulk (Link headerSize sendReadRequest announce readLoop readBulk)

theorem toNat_ofBytesBE {bs : List SaneByte} (h : bs.length = 4) :
    (WordBytes.ofBytesBE bs).toNat = bs.foldl (fun n b => 256 * n + b.toNat) 0 := by
  conv_rhs => rw [← WordBytes.bytesBE_ofBytesBE h]
  generalize WordBytes.ofBytesBE bs = v
  have hv := v.isLt
  simp [WordBytes.bytesBE, Nat.shiftRight_eq_div_pow]
  omega

/-- What a call of `select` and one of `recv` meet: the first segment, or no data in time. -/
def arrivalOf : List (List SaneByte) → Arrival
  | [] => .unready 0
  | seg :: _ => .readable (some seg)

/-- These arrive next, one for each call of `recv`. -/
def TcpConnection.Brings (conn : TcpConnection) : Nat → List Arrival → Prop
  | _, [] => True
  | k, a :: as => conn.arrival k = a ∧ conn.Brings (k + 1) as

theorem brings_append {as bs : List Arrival} (h : conn.Brings k (as ++ bs)) :
    conn.Brings k as ∧ conn.Brings (k + as.length) bs := by
  induction as generalizing k with
  | nil => exact ⟨trivial, h⟩
  | cons a as ih =>
    obtain ⟨ha, hrest⟩ := h
    obtain ⟨has, hbs⟩ := ih hrest
    rw [Nat.add_right_comm] at hbs
    exact ⟨⟨ha, has⟩, hbs⟩

/-- The device and the transfer as both models have them. -/
structure SameTransfer (l : Link) (s : BulkReception) : Prop where
  serial : s.device.serial = l.serial
  lastCmd : s.device.lastCmd = l.lastCmd
  left : s.scannerDataLeft = l.scannerDataLeft
  blocksize : s.blocksize = l.blocksize
  lastBlock : s.lastBlock = l.lastBlock

variable {l l' : Link} {data : List SaneByte} {ret : SaneStatus}

theorem recv_arrival {segs : List (List SaneByte)} (h : conn.arrival k = arrivalOf segs)
    (len : Nat) :
    conn.recv len BJNP_MAX_SELECT_ATTEMPTS k =
      ((SegmentedStream.recv len segs).map Prod.fst, k + 1) := by
  rw [BJNP_MAX_SELECT_ATTEMPTS, TcpConnection.recv, h]
  cases segs with
  | nil => rfl
  | cons seg segs => rfl

theorem payloadLen_eq {device : BjnpDevice} (hserial : device.serial = l.serial)
    (hcmd : device.lastCmd = l.lastCmd) (header : List SaneByte) :
    device.payloadLen header =
      if header.length ≠ headerSize then none
      else if header[5]? ≠ some l.lastCmd then none
      else if seqNo header ≠ bytesOfShort l.serial then none
      else some (BjnpBulk.payloadLen header) := by
  rw [BjnpDevice.payloadLen, hserial, hcmd, headerSize]
  by_cases hlen : header.length = 16
  · have hcode : header[5]? = some l.lastCmd ↔ header.getD 5 0 = l.lastCmd := by
      rw [List.getD_eq_getElem?_getD, List.getElem?_eq_getElem (by omega), Option.getD_some,
        Option.some_inj]
    have hpayload : BjnpBulk.payloadLen header =
        (header.drop 12).foldl (fun n b => 256 * n + b.toNat) 0 := by
      have hfour : (header.drop 12).length = 4 := by
        rw [List.length_drop]
        omega
      rw [BjnpBulk.payloadLen, List.take_of_length_le hfour.le, toNat_ofBytesBE hfour]
    simp only [ne_eq, ite_not, hlen, hcode, hpayload, if_true, true_and, ite_and]
  · rw [if_neg (fun h => hlen h.1), if_pos hlen]

/-- Both receive the same header. -/
theorem recvHeader_agrees (h : SameTransfer l s)
    (harrival : conn.arrival s.waits = arrivalOf l.incoming) :
    s.recvHeader conn = ((BjnpBulk.recvHeader l).1,
      { s with waits := s.waits + 1, scannerDataLeft := (BjnpBulk.recvHeader l).1.getD 0 }) := by
  have hsize : ((SegmentedStream.recv headerSize l.incoming).map Prod.fst).bind
      s.device.payloadLen = (BjnpBulk.recvHeader l).1 := by
    rw [BjnpBulk.recvHeader]
    cases SegmentedStream.recv headerSize l.incoming with
    | none => rfl
    | some got =>
      rw [Option.map_some, Option.bind_some, payloadLen_eq h.serial h.lastCmd]
      dsimp only
      split_ifs <;> rfl
  rw [BulkReception.recvHeader, show 16 = headerSize from rfl, recv_arrival harrival]
  dsimp only
  rw [hsize]

theorem recvHeader_frame (l : Link) :
    (BjnpBulk.recvHeader l).2.serial = l.serial ∧ (BjnpBulk.recvHeader l).2.lastCmd = l.lastCmd ∧
      (BjnpBulk.recvHeader l).2.blocksize = l.blocksize ∧
      (BjnpBulk.recvHeader l).2.lastBlock = l.lastBlock := by
  rw [BjnpBulk.recvHeader]
  cases SegmentedStream.recv headerSize l.incoming with
  | none => exact ⟨rfl, rfl, rfl, rfl⟩
  | some got =>
    dsimp only
    split_ifs <;> exact ⟨rfl, rfl, rfl, rfl⟩

theorem sendReadRequest_agrees (h : SameTransfer l s) (hsent : ∀ k, 0 ≤ conn.sent k) :
    (s.sendRequest conn).1 = true ∧ SameTransfer (sendReadRequest l) (s.sendRequest conn).2 := by
  refine ⟨decide_eq_true (Int.not_lt.mpr (hsent _)), ?_⟩
  have hserial : s.device.serial + 1 = l.serial + 1 := by rw [h.serial]
  rw [sendReadRequest]
  split
  · exact ⟨hserial, rfl, h.left, h.blocksize, h.lastBlock⟩
  · exact ⟨hserial, rfl, h.left, h.blocksize, h.lastBlock⟩

/-- Both learn the same of the next block. -/
theorem announce_agrees (h : SameTransfer l s) (hsent : ∀ k, 0 ≤ conn.sent k)
    (hnone : l.scannerDataLeft = 0)
    (harrival : conn.arrival s.waits = arrivalOf (sendReadRequest l).incoming) :
    ∃ t, SameTransfer (announce l).2 t ∧ t.received = s.received ∧ t.waits = s.waits + 1 ∧
      s.awaitBlock conn = match (announce l).1 with
        | none => .fails t
        | some () => if (announce l).2.scannerDataLeft = 0 then .breaks t else .goesOn t := by
  obtain ⟨hsends, hagrees⟩ := sendReadRequest_agrees h hsent
  obtain ⟨hserial, hcmd, hblocksize, hlast⟩ := recvHeader_frame (sendReadRequest l)
  have hheader := recvHeader_agrees hagrees harrival
  rw [BulkReception.awaitBlock, if_pos (h.left.trans hnone),
    ← Prod.mk.eta (p := s.sendRequest conn), hsends]
  dsimp only
  rw [hheader, announce, ← Prod.mk.eta (p := BjnpBulk.recvHeader _)]
  cases hsize : (BjnpBulk.recvHeader (sendReadRequest l)).1 with
  | none =>
    refine ⟨_, ?_, ?_, ?_, rfl⟩
    · exact ⟨hagrees.serial.trans hserial.symm, hagrees.lastCmd.trans hcmd.symm, rfl,
        hagrees.blocksize.trans hblocksize.symm, hagrees.lastBlock.trans hlast.symm⟩
    · rfl
    · rfl
  | some left =>
    refine ⟨_, ?_, ?_, ?_, rfl⟩
    · refine ⟨hagrees.serial.trans hserial.symm, hagrees.lastCmd.trans hcmd.symm, rfl, ?_, ?_⟩
      · show max _ left = max _ left
        rw [hagrees.blocksize, hblocksize]
      · show (_ || decide (left < max _ left)) = (_ || decide (left < max _ left))
        rw [hagrees.blocksize, hblocksize, hagrees.lastBlock, hlast]
    · rfl
    · rfl

theorem recvData_length_le {len : Nat} (h : BjnpBulk.recvData len l = (some data, l')) :
    data.length ≤ len := by
  rw [BjnpBulk.recvData] at h
  cases hincoming : l.incoming with
  | nil =>
    rw [hincoming] at h
    cases h
  | cons seg segs =>
    rw [hincoming] at h
    cases h
    exact List.length_take_le _ _

/-- Both receive the same bytes of a block. -/
theorem recvData_agrees {wanted : Nat} (h : SameTransfer l s)
    (hwanted : s.received.length + wanted = requested)
    (harrival : conn.arrival s.waits = arrivalOf l.incoming) :
    ∃ t, t.waits = s.waits + 1 ∧
      match BjnpBulk.recvData (min l.scannerDataLeft wanted) l with
      | (none, l') => s.recvData conn requested = .fails t ∧ SameTransfer l' t ∧
          t.received = s.received
      | (some data, l') => s.recvData conn requested = .goesOn t ∧
          SameTransfer { l' with scannerDataLeft := l'.scannerDataLeft - data.length } t ∧
          t.received = s.received ++ data := by
  have hmore : min s.scannerDataLeft (requested - s.received.length) =
      min l.scannerDataLeft wanted := by
    rw [h.left, ← hwanted, Nat.add_sub_cancel_left]
  rw [BulkReception.recvData, hmore, recv_arrival harrival, BjnpBulk.recvData]
  cases SegmentedStream.recv (min l.scannerDataLeft wanted) l.incoming with
  | none =>
    refine ⟨_, ?_, rfl, ?_, ?_⟩
    · rfl
    · exact ⟨h.serial, h.lastCmd, h.left, h.blocksize, h.lastBlock⟩
    · rfl
  | some got =>
    refine ⟨_, ?_, rfl, ?_, ?_⟩
    · rfl
    · refine ⟨h.serial, h.lastCmd, ?_, h.blocksize, h.lastBlock⟩
      show s.scannerDataLeft - _ = l.scannerDataLeft - _
      rw [h.left]
    · rfl

/-- What there is before bytes are received. -/
theorem awaitBlock_agrees (l : Link) :
    ∃ as, ∀ (conn : TcpConnection) (s : BulkReception), (∀ k, 0 ≤ conn.sent k) → SameTransfer l s →
      conn.Brings s.waits as →
      ∃ t, t.received = s.received ∧ t.waits = s.waits + as.length ∧
        match if l.scannerDataLeft = 0 then announce l else (some (), l) with
        | (none, l') => s.awaitBlock conn = .fails t ∧ SameTransfer l' t
        | (some (), l') => s.awaitBlock conn =
            (if l'.scannerDataLeft = 0 then .breaks t else .goesOn t) ∧ SameTransfer l' t := by
  by_cases hnone : l.scannerDataLeft = 0
  · refine ⟨[arrivalOf (sendReadRequest l).incoming], fun conn s hsent h hbrings => ?_⟩
    obtain ⟨t, hagrees, hreceived, hwaits, hturn⟩ := announce_agrees h hsent hnone hbrings.1
    refine ⟨t, hreceived, hwaits, ?_⟩
    rw [if_pos hnone, ← Prod.mk.eta (p := announce l)]
    cases hsize : (announce l).1 with
    | none =>
      rw [hsize] at hturn
      exact ⟨hturn, hagrees⟩
    | some _ =>
      rw [hsize] at hturn
      exact ⟨hturn, hagrees⟩
  · refine ⟨[], fun conn s _ h _ => ⟨s, rfl, rfl, ?_⟩⟩
    have hleft : ¬ s.scannerDataLeft = 0 := h.left ▸ hnone
    rw [if_neg hnone]
    dsimp only
    rw [BulkReception.awaitBlock, if_neg hleft, if_neg hnone]
    exact ⟨rfl, h⟩

/-- A turn of `readLoop`: nothing if it fails, no bytes if the loop is left. -/
def linkTurn (wanted : Nat) (l : Link) : Option (Option (List SaneByte)) × Link :=
  match (if l.scannerDataLeft = 0 then announce l else (some (), l)) with
  | (none, l) => (none, l)
  | (some (), l) =>
    if l.scannerDataLeft = 0 then (some none, l)
    else
      match BjnpBulk.recvData (min l.scannerDataLeft wanted) l with
      | (none, l) => (none, l)
      | (some data, l) =>
        (some (some data), { l with scannerDataLeft := l.scannerDataLeft - data.length })

theorem readLoop_turn {fuel wanted : Nat}
    (hmore : ¬ (wanted = 0 ∨ l.lastBlock = true ∧ l.scannerDataLeft = 0)) :
    readLoop fuel wanted l = match linkTurn wanted l, fuel with
      | (none, l), _ => some (.ioError, [], l)
      | (some none, l), _ => some (.good, [], l)
      | (some (some _), _), 0 => none
      | (some (some data), l), fuel + 1 =>
        (readLoop fuel (wanted - data.length) l).map fun r => (r.1, data ++ r.2.1, r.2.2) := by
  rw [readLoop, if_neg hmore, linkTurn]
  generalize (if l.scannerDataLeft = 0 then announce l else (some (), l)) = next
  obtain ⟨announced, m⟩ := next
  cases announced with
  | none => rfl
  | some _ =>
    by_cases hleft : m.scannerDataLeft = 0
    · simp only [hleft, if_true]
    · simp only [hleft, if_false]
      cases BjnpBulk.recvData (min m.scannerDataLeft wanted) m with
      | mk got m' =>
        cases got with
        | none => rfl
        | some bytes => cases fuel <;> rfl

theorem linkTurn_length_le {wanted : Nat} (h : linkTurn wanted l = (some (some data), l')) :
    data.length ≤ wanted := by
  rw [linkTurn] at h
  split at h
  · cases h
  · split_ifs at h
    · cases h
    · split at h
      · cases h
      · rename_i hgot
        cases h
        exact (recvData_length_le hgot).trans (Nat.min_le_right ..)

/-- Both take the same turn. -/
theorem turn_agrees (requested wanted : Nat) (l : Link) :
    ∃ as, ∀ (conn : TcpConnection) (s : BulkReception), (∀ k, 0 ≤ conn.sent k) → SameTransfer l s →
      s.received.length + wanted = requested → conn.Brings s.waits as →
      ∃ t, t.waits = s.waits + as.length ∧ SameTransfer (linkTurn wanted l).2 t ∧
        t.received = s.received ++ ((linkTurn wanted l).1.bind id).getD [] ∧
        s.turn conn requested = match (linkTurn wanted l).1 with
          | none => .fails t
          | some none => .breaks t
          | some (some _) => .goesOn t := by
  obtain ⟨as, hawait⟩ := awaitBlock_agrees l
  rw [linkTurn]
  generalize (if l.scannerDataLeft = 0 then announce l else (some (), l)) = next at hawait
  obtain ⟨announced, m⟩ := next
  cases announced with
  | none =>
    refine ⟨as, fun conn s hsent hagrees _ hbrings => ?_⟩
    obtain ⟨t, hreceived, hwaits, hturn, hagrees'⟩ := hawait conn s hsent hagrees hbrings
    refine ⟨t, hwaits, hagrees', hreceived.trans (List.append_nil _).symm, ?_⟩
    rw [BulkReception.turn, hturn]
  | some _ =>
    by_cases hleft : m.scannerDataLeft = 0
    · refine ⟨as, fun conn s hsent hagrees _ hbrings => ?_⟩
      obtain ⟨t, hreceived, hwaits, hturn, hagrees'⟩ := hawait conn s hsent hagrees hbrings
      dsimp only
      rw [if_pos hleft]
      refine ⟨t, hwaits, hagrees', hreceived.trans (List.append_nil _).symm, ?_⟩
      rw [BulkReception.turn, hturn, if_pos hleft]
    · refine ⟨as ++ [arrivalOf m.incoming], fun conn s hsent hagrees hwanted hbrings => ?_⟩
      obtain ⟨hbefore, hnext, -⟩ := brings_append hbrings
      obtain ⟨t, hreceived, hwaits, hturn, hagrees'⟩ := hawait conn s hsent hagrees hbefore
      rw [← hwaits] at hnext
      rw [← hreceived] at hwanted ⊢
      obtain ⟨u, hwaits', hu⟩ := recvData_agrees hagrees' hwanted hnext
      have hall : u.waits = s.waits + (as ++ [arrivalOf m.incoming]).length := by
        rw [hwaits', hwaits, List.length_append, List.length_singleton, Nat.add_assoc]
      dsimp only
      rw [if_neg hleft, BulkReception.turn, hturn, if_neg hleft]
      cases hgot : BjnpBulk.recvData (min m.scannerDataLeft wanted) m with
      | mk got m' =>
        rw [hgot] at hu
        cases got with
        | none =>
          obtain ⟨hrecv, hagrees'', hsame⟩ := hu
          exact ⟨u, hall, hagrees'', hsame.trans (List.append_nil _).symm, hrecv⟩
        | some bytes =>
          obtain ⟨hrecv, hagrees'', hgrown⟩ := hu
          exact ⟨u, hall, hagrees'', hgrown, hrecv⟩

/-- Both loops go on or stop at the same place. -/
theorem wantsMore_agrees {wanted : Nat} (h : SameTransfer l s)
    (hwanted : s.received.length + wanted = requested) :
    s.wantsMore requested ↔ ¬ (wanted = 0 ∨ l.lastBlock = true ∧ l.scannerDataLeft = 0) := by
  rw [BulkReception.wantsMore, h.lastBlock, h.left, not_or, ← hwanted]
  exact and_congr_left' (by omega)

/-- What the loop returns for the segments of the scanner, it returns over a connection on which
    they arrive. -/
theorem readLoop_reads (requested : Nat) {fuel wanted : Nat}
    (h : readLoop fuel wanted l = some (ret, data, l')) :
    ∃ as, ∀ (conn : TcpConnection) (s : BulkReception), (∀ k, 0 ≤ conn.sent k) → SameTransfer l s →
      s.received.length + wanted = requested → conn.Brings s.waits as →
      ∃ t, saneiBjnpReadBulk conn requested (fuel + 1) s =
          some (if ret = .good then t.finish.1 else ret, t) ∧
        t.received = s.received ++ data ∧ SameTransfer l' t := by
  induction fuel using Nat.strong_induction_on generalizing wanted l ret data with
  | h fuel ih =>
    by_cases hdone : wanted = 0 ∨ l.lastBlock = true ∧ l.scannerDataLeft = 0
    · rw [readLoop, if_pos hdone] at h
      cases h
      refine ⟨[], fun conn s _ hagrees hwanted _ => ⟨s, ?_, (List.append_nil _).symm, hagrees⟩⟩
      have hstops := fun hmore => (wantsMore_agrees hagrees hwanted).mp hmore hdone
      rw [saneiBjnpReadBulk, if_neg hstops, if_pos rfl]
      rfl
    · have hgoes : ∀ {conn : TcpConnection} {s : BulkReception}, SameTransfer l s →
          s.received.length + wanted = requested →
          saneiBjnpReadBulk conn requested (fuel + 1) s =
            match s.turn conn requested with
            | .goesOn t => saneiBjnpReadBulk conn requested fuel t
            | .breaks t => some t.finish
            | .fails t => some (.ioError, t) := by
        intro conn s hagrees hwanted
        rw [saneiBjnpReadBulk, if_pos ((wantsMore_agrees hagrees hwanted).mpr hdone)]
      obtain ⟨as, hturns⟩ := turn_agrees requested wanted l
      rw [readLoop_turn hdone] at h
      cases hnext : linkTurn wanted l with
      | mk got m =>
        rw [hnext] at h hturns
        cases got with
        | none =>
          cases h
          refine ⟨as, fun conn s hsent hagrees hwanted hbrings => ?_⟩
          obtain ⟨t, -, hagrees', hreceived, hturn⟩ := hturns conn s hsent hagrees hwanted hbrings
          refine ⟨t, ?_, hreceived, hagrees'⟩
          rw [hgoes hagrees hwanted, hturn]
          rfl
        | some gained =>
          cases gained with
          | none =>
            cases h
            refine ⟨as, fun conn s hsent hagrees hwanted hbrings => ?_⟩
            obtain ⟨t, -, hagrees', hreceived, hturn⟩ :=
              hturns conn s hsent hagrees hwanted hbrings
            refine ⟨t, ?_, hreceived, hagrees'⟩
            rw [hgoes hagrees hwanted, hturn]
            rfl
          | some bytes =>
            cases fuel with
            | zero => cases h
            | succ fuel =>
              obtain ⟨⟨ret', rest, m'⟩, hrest, heq⟩ := Option.map_eq_some_iff.mp h
              cases heq
              obtain ⟨as', hloop⟩ := ih fuel (Nat.lt_succ_self fuel) hrest
              refine ⟨as ++ as', fun conn s hsent hagrees hwanted hbrings => ?_⟩
              obtain ⟨hbefore, hbehind⟩ := brings_append hbrings
              obtain ⟨t, hwaits, hagrees', hgrown, hturn⟩ :=
                hturns conn s hsent hagrees hwanted hbefore
              change t.received = s.received ++ bytes at hgrown
              rw [← hwaits] at hbehind
              have hlen := linkTurn_length_le hnext
              have hwanted' : t.received.length + (wanted - bytes.length) = requested := by
                rw [hgrown, List.length_append]
                omega
              obtain ⟨u, hresult, hall, hagrees''⟩ := hloop conn t hsent hagrees' hwanted' hbehind
              refine ⟨u, ?_, ?_, hagrees''⟩
              · rw [hgoes hagrees hwanted, hturn]
                exact hresult
              · rw [hall, hgrown, List.append_assoc]

/-- `sanei_bjnp_read_bulk` over the segments of the scanner is the one over a connection on which
    they arrive. -/
theorem readBulk_reads {size : Nat} (h : readBulk size l = some (ret, data, l')) :
    ∃ as, ∀ (conn : TcpConnection) (s : BulkReception), (∀ k, 0 ≤ conn.sent k) → SameTransfer l s →
      s.received = [] → conn.Brings s.waits as →
      ∃ t, saneiBjnpReadBulk conn size (size + 1) s = some (ret, t) ∧ t.received = data ∧
        SameTransfer l' t := by
  obtain ⟨⟨ret', data', m⟩, hloop, heq⟩ := Option.map_eq_some_iff.mp h
  cases heq
  obtain ⟨as, hreads⟩ := readLoop_reads size hloop
  refine ⟨as, fun conn s hsent hagrees hstart hbrings => ?_⟩
  obtain ⟨t, hresult, hreceived, hagrees'⟩ := hreads conn s hsent hagrees (by simp [hstart]) hbrings
  rw [hstart, List.nil_append] at hreceived
  refine ⟨t, ?_, hreceived, hagrees'⟩
  rw [hresult, BulkReception.finish, hreceived]
  split_ifs <;> simp_all

end

end SaneBackends
