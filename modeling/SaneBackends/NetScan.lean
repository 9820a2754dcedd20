import SaneBackends.SanedScan
import SaneBackends.NetRead

/-!
# A scan over the network

`do_scan` of `saned` and `sane_read` of the net backend at the two ends of a data socket.
The socket keeps the order of the bytes and loses none; how many of the bytes in flight a
`read` delivers, and in which order the two programs run, is left open.  The records of
the server carry so little data that the client's comparison of signed numbers does no
harm, and the four bytes that follow the status byte of a failing read never come to the
frontend.
-/

namespace SaneBackends

open RecordStream LabelledRun WordBytes

/-- The bytes that a read has brought. -/
def Pass.data : Pass → List SaneByte
  | .ready (.read .good stored length) _ => stored.take length
  | _ => []

/-- The image at the server. -/
def serverImage (ps : List Pass) : List SaneByte := ps.flatMap Pass.data

/-- A `read` delivers a beginning of the bytes that are in the socket. -/
def SocketRead.From (inFlight : List SaneByte) : SocketRead → Prop
  | .deliver there => there <+: inFlight
  | _ => True

/-- The reads of a call; when the length of a record comes first, what is read behind it
    follows its last byte. -/
def ReadCall.FromSocket (s : NetScanner) (inFlight : List SaneByte) (c : ReadCall) : Prop :=
  c.lengthRead.From inFlight ∧
    c.dataRead.From (if s.bytesRemaining = 0 then inFlight.drop (4 - s.reclenBufOffset)
      else inFlight)

/-- The two programs; what the server has written and the client has not received is in the
    socket. -/
structure NetScan where
  server : ScanLoop
  client : NetScanner

def NetScan.inFlight (s : NetScan) : List SaneByte :=
  s.server.written.drop s.client.received.length

inductive NetEvent where
  | server (p : Pass)
  | client (c : ReadCall)

/-- The passes of the server among the events. -/
def passesOf (events : List NetEvent) : List Pass :=
  events.filterMap fun
    | .server p => some p
    | .client _ => none

/-- One program takes a step. -/
def NetEvent.Step (o : ByteOrder) (s : NetScan) : NetEvent → NetScan → Prop
  | .server p, s' => Pass.Step s.server p s'.server ∧ s'.client = s.client
  | .client c, s' => 0 ≤ c.maxLength.toInt ∧ c.FromSocket s.client s.inFlight ∧
      (∃ r, saneRead o s.client c = .ok (r, s'.client)) ∧ s'.server = s.server

/-- The data socket has been opened. -/
def NetScan.started (buf reclenBuf : List SaneByte) (selectFd : Bool) : NetScan :=
  ⟨.initial buf selectFd, .started reclenBuf⟩

/-! ### The stream of the server -/

variable {ps : List Pass} {p : Pass} {xs ys zs stale : List SaneByte} {st : SaneStatus}

/-- A record that fits into the buffer of the server, or none. -/
def Pass.Fits (p : Pass) : Prop :=
  p.record = [] ∧ p.data = [] ∨
    p.record = bytesBE (BitVec.ofNat 32 p.data.length) ++ p.data ∧ p.data.length < SCAN_BUF_SIZE

theorem toRead_lt (s : ScanLoop) : s.toRead < SCAN_BUF_SIZE := by
  unfold ScanLoop.toRead SCAN_BUF_SIZE
  split_ifs <;> omega

theorem Pass.Step.fits {s s' : ScanLoop} (h : Pass.Step s p s') : p.Fits := by
  obtain ⟨-, -, -, hpass⟩ := h
  cases p with
  | badFd => exact .inl ⟨rfl, rfl⟩
  | selectFailed => exact .inl ⟨rfl, rfl⟩
  | ready t request =>
    cases t with
    | idle => exact .inl ⟨rfl, rfl⟩
    | write nwritten => exact .inl ⟨rfl, rfl⟩
    | read status stored length =>
      by_cases hst : status = .good
      · subst hst
        rw [ScanLoop.pass, Option.map_eq_some_iff] at hpass
        obtain ⟨u, htransfer, -⟩ := hpass
        simp only [ScanLoop.transfer, Option.ite_none_right_eq_some] at htransfer
        obtain ⟨⟨-, -, -, hstored, hlength⟩, -⟩ := htransfer
        have hdata : (stored.take length).length = length := List.length_take_of_le hlength
        refine .inr ⟨?_, ?_⟩
        · change bytesBE (BitVec.ofNat 32 length) ++ stored.take length =
            bytesBE (BitVec.ofNat 32 (stored.take length).length) ++ stored.take length
          rw [hdata]
        · change (stored.take length).length < SCAN_BUF_SIZE
          rw [hdata]
          exact (hlength.trans hstored).trans_lt (toRead_lt s)
      · left
        cases status <;> first | exact ⟨rfl, rfl⟩ | exact absurd rfl hst

theorem putStatus_written (s : ScanLoop) : s.putStatus.written = s.written := by
  unfold ScanLoop.putStatus
  split_ifs <;> rfl

theorem processed_written (s : ScanLoop) (request : Option Bool) :
    (s.processed request).written = s.written := by
  rcases request with _ | _ | _ <;> rfl

/-- What has been written stays written. -/
theorem Pass.Step.written {s s' : ScanLoop} (h : Pass.Step s p s') : s.written <+: s'.written := by
  obtain ⟨-, -, -, hpass⟩ := h
  cases p with
  | badFd =>
    simp only [ScanLoop.pass, Option.ite_none_right_eq_some, Option.some.injEq] at hpass
    rw [← hpass.2]
  | selectFailed =>
    cases hpass
    exact List.prefix_refl _
  | ready t request =>
    rw [ScanLoop.pass, Option.map_eq_some_iff] at hpass
    obtain ⟨u, htransfer, rfl⟩ := hpass
    have hend : (if u.left then u else u.putStatus.processed request).written = u.written := by
      split_ifs
      · rfl
      · rw [processed_written, putStatus_written]
    rw [hend]
    cases t with
    | idle =>
      simp only [ScanLoop.transfer, Option.ite_none_left_eq_some, Option.some.injEq] at htransfer
      rw [htransfer.2]
    | write nwritten =>
      cases nwritten with
      | none =>
        simp only [ScanLoop.transfer, Option.ite_none_left_eq_some, Option.some.injEq] at htransfer
        rw [← htransfer.2]
        exact List.prefix_refl _
      | some n =>
        simp only [ScanLoop.transfer, Option.ite_none_left_eq_some, Option.ite_none_right_eq_some,
          Option.some.injEq] at htransfer
        rw [← htransfer.2.2]
        exact List.prefix_append _ _
    | read status stored length =>
      simp only [ScanLoop.transfer, Option.ite_none_right_eq_some, Option.some.injEq] at htransfer
      rw [← htransfer.2, ScanLoop.didRead]
      split_ifs <;> exact List.prefix_refl _

/-- In front of a record or inside of one that fits. -/
def InsideRecord : Frame → Prop
  | .header _ => True
  | .body n => n < SCAN_BUF_SIZE
  | _ => False

theorem inside_rest {n : Nat} (h : n < SCAN_BUF_SIZE) : InsideRecord (rest n) := by
  unfold rest
  split_ifs
  · trivial
  · exact h

theorem announced_length (h : xs.length < SCAN_BUF_SIZE) :
    announced (BitVec.ofNat 32 xs.length) = rest xs.length := by
  have hsize : SCAN_BUF_SIZE = 8192 := rfl
  have hnat : (BitVec.ofNat 32 xs.length).toNat = xs.length := by
    rw [BitVec.toNat_ofNat, Nat.mod_eq_of_lt (by omega)]
  rw [announced, hnat, if_neg]
  intro hend
  have := congrArg BitVec.toNat hend
  rw [hnat] at this
  simp at this
  omega

/-- The stream behind a length. -/
theorem run_length (w : SaneWord) : (Frame.header []).run (bytesBE w) = (announced w, []) := by
  have hfour : ([] : List SaneByte).length + (bytesBE w).length = 4 := by
    rw [length_bytesBE]
    rfl
  rw [run_header_full (by decide) hfour, List.nil_append, ofBytesBE_bytesBE]

theorem run_record (h : xs.length < SCAN_BUF_SIZE) (hys : ys <+: xs) :
    (Frame.header []).run (bytesBE (BitVec.ofNat 32 xs.length) ++ ys) =
      (rest (xs.length - ys.length), ys) := by
  rw [Frame.run_append, run_length, announced_length h, run_rest hys.length_le, List.nil_append]

theorem run_endMark (st : SaneStatus) (zs : List SaneByte) :
    (Frame.header []).run (endMark st ++ zs) = (.ended st.byte, []) := by
  have hended : ∀ b zs, (Frame.ended b).run zs = (.ended b, []) := by
    intro b zs
    induction zs with
    | nil => rfl
    | cons z zs ih => simp only [Frame.run, Frame.feed, ih, List.append_nil]
  rw [endMark, List.append_assoc, Frame.run_append, run_length]
  simp only [announced, if_true, List.singleton_append, Frame.run, Frame.feed, hended,
    List.append_nil]

/-- The end of the stream, of which only a part may have arrived; what follows the status
    byte changes nothing. -/
theorem run_end (h : ys <+: endMark st ++ stale) :
    ((Frame.header []).run ys).2 = [] ∧
      (∀ b, ((Frame.header []).run ys).1 = .ended b → b = st.byte) ∧
      ∀ n, ((Frame.header []).run ys).1 ≠ .body n := by
  have hmark : bytesBE 0xffffffff <+: endMark st ++ stale := by
    rw [endMark, List.append_assoc]
    exact List.prefix_append _ _
  rcases lt_trichotomy ys.length 4 with hlt | heq | hgt
  · rw [run_header_short (by rwa [List.length_nil, Nat.zero_add])]
    exact ⟨rfl, fun b hb => (by cases hb), fun n hn => (by cases hn)⟩
  · obtain rfl : ys = bytesBE 0xffffffff :=
      (List.prefix_of_prefix_length_le h hmark (le_of_eq heq)).eq_of_length heq
    rw [run_length]
    exact ⟨rfl, fun b hb => (by cases hb), fun n hn => (by cases hn)⟩
  · obtain ⟨zs, rfl⟩ := List.prefix_of_prefix_length_le (List.prefix_append _ _) h hgt
    rw [run_endMark]
    exact ⟨rfl, fun b hb => (by cases hb; rfl), fun n hn => (by cases hn)⟩

theorem frame_record (h : p.Fits) : frame p.record = .header [] ∧ payload p.record = p.data := by
  rcases h with ⟨hrecord, hdata⟩ | ⟨hrecord, hlen⟩
  · rw [hrecord, hdata]
    exact ⟨rfl, rfl⟩
  · rw [frame, payload, hrecord, run_record hlen (List.prefix_refl _), Nat.sub_self]
    exact ⟨rfl, rfl⟩

/-- The data of the records is the image. -/
theorem payload_records (h : ∀ p ∈ ps, p.Fits) :
    frame (records ps) = .header [] ∧ payload (records ps) = serverImage ps := by
  induction ps with
  | nil => exact ⟨rfl, rfl⟩
  | cons p ps ih =>
    obtain ⟨hframe, hpayload⟩ := frame_record (h p List.mem_cons_self)
    obtain ⟨ihframe, ihpayload⟩ := ih fun q hq => h q (List.mem_cons_of_mem _ hq)
    have hcons : records (p :: ps) = p.record ++ records ps := rfl
    rw [hcons, frame_append, payload_append, hframe, hpayload]
    exact ⟨ihframe, congrArg (p.data ++ ·) ihpayload⟩

/-- Wherever the records are cut, the client expects no more than the rest of one. -/
theorem inside_records (h : ∀ p ∈ ps, p.Fits) (hxs : xs <+: records ps) :
    InsideRecord (frame xs) := by
  induction ps generalizing xs with
  | nil =>
    rw [List.prefix_nil.mp hxs]
    trivial
  | cons p ps ih =>
    have hcons : records (p :: ps) = p.record ++ records ps := rfl
    rw [hcons] at hxs
    have hfits := h p List.mem_cons_self
    rcases List.prefix_or_prefix_of_prefix hxs (List.prefix_append _ _) with hin | ⟨ys, rfl⟩
    · rcases hfits with ⟨hrecord, -⟩ | ⟨hrecord, hlen⟩
      · rw [hrecord] at hin
        rw [List.prefix_nil.mp hin]
        trivial
      · rw [hrecord] at hin
        by_cases hshort : xs.length < 4
        · rw [frame, run_header_short (by rwa [List.length_nil, Nat.zero_add])]
          trivial
        · obtain ⟨ys, rfl⟩ := List.prefix_of_prefix_length_le (List.prefix_append _ _) hin
            (by rw [length_bytesBE]; omega)
          rw [frame, run_record hlen ((List.prefix_append_right_inj _).mp hin)]
          exact inside_rest (by omega)
    · rw [frame_append, (frame_record hfits).1]
      exact ih (fun q hq => h q (List.mem_cons_of_mem _ hq))
        ((List.prefix_append_right_inj _).mp hxs)

theorem payload_mono (h : xs <+: ys) : payload xs <+: payload ys := by
  obtain ⟨zs, rfl⟩ := h
  rw [payload_append]
  exact List.prefix_append _ _

/-! ### What the client receives -/

variable {o : ByteOrder} {s s' t : NetScanner} {c : ReadCall} {r : ReadReturn}

/-- Bytes follow each other in the socket. -/
theorem prefix_of_drop (hxs : xs <+: ys) (hzs : zs <+: ys.drop xs.length) : xs ++ zs <+: ys := by
  obtain ⟨rest, rfl⟩ := hxs
  rw [List.drop_left] at hzs
  exact (List.prefix_append_right_inj xs).mpr hzs

theorem readData_received {maxLength : SaneWord} {dataRead : SocketRead}
    (hsock : dataRead.From ys) (h : t.readData o maxLength dataRead = .ok (r, s')) :
    ∃ taken, s'.received = t.received ++ taken ∧ taken <+: ys := by
  unfold NetScanner.readData at h
  cases dataRead with
  | again =>
    cases h
    exact ⟨[], (List.append_nil _).symm, List.nil_prefix⟩
  | fail =>
    cases h
    exact ⟨[], (List.append_nil _).symm, List.nil_prefix⟩
  | deliver there =>
    dsimp only at h
    split at h
    · cases h
    · cases h
      exact ⟨_, rfl, (List.take_prefix _ _).trans hsock⟩

theorem readStatus_received (t : NetScanner) {statusRead : SocketRead}
    (hsock : statusRead.From ys) :
    ∃ taken, (t.readStatus statusRead).2.received = t.received ++ taken ∧ taken <+: ys := by
  have hnone : ∃ taken, t.received = t.received ++ taken ∧ taken <+: ys :=
    ⟨[], (List.append_nil _).symm, List.nil_prefix⟩
  rcases statusRead with (_ | ⟨ch, there⟩) | _ | _
  · exact hnone
  · exact ⟨[ch], rfl, List.IsPrefix.trans ⟨there, rfl⟩ hsock⟩
  · exact hnone
  · exact hnone

/-- A call takes its bytes from the front of the socket. -/
theorem saneRead_received (hoffset : s.reclenBufOffset < 4) (hsock : c.FromSocket s ys)
    (h : saneRead o s c = .ok (r, s')) :
    ∃ taken, s'.received = s.received ++ taken ∧ taken <+: ys := by
  have hnone : ∃ taken, s.received = s.received ++ taken ∧ taken <+: ys :=
    ⟨[], (List.append_nil _).symm, List.nil_prefix⟩
  obtain ⟨hlength, hdata⟩ := hsock
  unfold saneRead at h
  split at h
  · split at h
    · cases h
    · cases h
      exact hnone
  · split at h
    · cases h
      exact hnone
    · split at h
      · rename_i hzero
        rw [if_pos hzero] at hdata
        split at h
        · cases h
          exact hnone
        · cases h
          exact hnone
        · rename_i there hthere
          rw [hthere] at hlength
          have hgot : there.take (4 - s.reclenBufOffset) <+: ys :=
            (List.take_prefix _ _).trans hlength
          have hoff : (s.gotLength (there.take (4 - s.reclenBufOffset))).reclenBufOffset =
              s.reclenBufOffset + (there.take (4 - s.reclenBufOffset)).length := rfl
          have hle := List.length_take_le (4 - s.reclenBufOffset) there
          dsimp only at h
          split at h
          · cases h
            exact ⟨_, rfl, hgot⟩
          · rename_i hfull
            have hlen : (there.take (4 - s.reclenBufOffset)).length = 4 - s.reclenBufOffset := by
              omega
            rw [← hlen] at hdata
            -- what is read behind the length follows it
            obtain ⟨taken, hreceived, htaken⟩ : ∃ taken,
                s'.received = s.received ++ there.take (4 - s.reclenBufOffset) ++ taken ∧
                  taken <+: ys.drop (there.take (4 - s.reclenBufOffset)).length := by
              split at h
              · obtain ⟨taken, htaken⟩ := readStatus_received
                  (s.gotLength (there.take (4 - s.reclenBufOffset))).begun hdata
                rw [Except.ok.inj h] at htaken
                exact ⟨taken, htaken⟩
              · exact readData_received hdata h
            exact ⟨_, hreceived.trans (List.append_assoc ..), prefix_of_drop hgot htaken⟩
      · rename_i hne
        rw [if_neg hne] at hdata
        exact readData_received hdata h

theorem atData_received (hsock : c.FromSocket s ys) (h : s.atData o c = some t) :
    ∃ taken, t.received = s.received ++ taken ∧ taken <+: ys := by
  simp only [NetScanner.atData] at h
  split_ifs at h with hearly hzero
  · cases hread : c.lengthRead with
    | again => rw [hread] at h; cases h
    | fail => rw [hread] at h; cases h
    | deliver there =>
      have hlength := hsock.1
      rw [hread] at h hlength
      simp only [Option.ite_none_left_eq_some, Option.some.injEq] at h
      obtain ⟨-, -, rfl⟩ := h
      exact ⟨_, rfl, (List.take_prefix _ _).trans hlength⟩
  · cases h
    exact ⟨[], (List.append_nil _).symm, List.nil_prefix⟩

/-! ### Both ends -/

/-- What holds whatever the two programs have done. -/
structure NetScan.Inv (events : List NetEvent) (s : NetScan) : Prop where
  server : s.server.Inv (passesOf events)
  fits : ∀ p ∈ passesOf events, p.Fits
  framed : s.client.Framed
  leftOver : s.client.leftOver = none
  returned : s.client.returned = payload s.client.received
  received : s.client.received <+: s.server.written

section
variable {events : List NetEvent} {s s' : NetScan} {n : Nat} {b : SaneByte}

theorem NetScan.Inv.sent (h : s.Inv events) :
    ∃ tail, s.server.written <+: records (passesOf events) ++ tail ∧
      (tail = [] ∨
        ∃ st stale, ending (passesOf events) = some st ∧ tail = endMark st ++ stale) := by
  cases h.server.phase with
  | scanning _ _ _ _ hsent =>
    exact ⟨[], by rw [List.append_nil, ← hsent]; exact List.prefix_append _ _, .inl rfl⟩
  | closing _ _ _ _ _ _ hsent =>
    exact ⟨[], by rw [List.append_nil, ← hsent]; exact List.prefix_append _ _, .inl rfl⟩
  | @ended st stale hend _ _ _ hsent =>
    refine ⟨endMark st ++ stale, ?_, .inr ⟨st, stale, hend, rfl⟩⟩
    rw [← List.append_assoc, ← hsent]
    exact List.prefix_append _ _

/-- The bytes that have been taken from the socket end within the records, or within the end
    mark and what follows it. -/
theorem NetScan.Inv.position (h : s.Inv events) (hxs : xs <+: s.server.written) :
    xs <+: records (passesOf events) ∨ ∃ st stale ys, ending (passesOf events) = some st ∧
      ys <+: endMark st ++ stale ∧ xs = records (passesOf events) ++ ys := by
  obtain ⟨tail, hsent, htail⟩ := h.sent
  have hall := hxs.trans hsent
  rcases List.prefix_or_prefix_of_prefix hall (List.prefix_append _ _) with hin | ⟨ys, rfl⟩
  · exact .inl hin
  · have hys := (List.prefix_append_right_inj _).mp hall
    rcases htail with rfl | ⟨st, stale, hend, rfl⟩
    · rw [List.prefix_nil.mp hys, List.append_nil]
      exact .inl (List.prefix_refl _)
    · exact .inr ⟨st, stale, ys, hend, hys, rfl⟩

theorem NetScan.Inv.payload_prefix (h : s.Inv events) (hxs : xs <+: s.server.written) :
    payload xs <+: serverImage (passesOf events) := by
  obtain ⟨hframe, hpayload⟩ := payload_records h.fits
  rcases h.position hxs with hin | ⟨st, stale, ys, -, hys, rfl⟩
  · exact hpayload ▸ payload_mono hin
  · rw [payload_append, hframe, hpayload, (run_end hys).1, List.append_nil]

theorem NetScan.Inv.body_lt (h : s.Inv events) (hxs : xs <+: s.server.written)
    (hbody : frame xs = .body n) : n < 2 ^ 31 := by
  rcases h.position hxs with hin | ⟨st, stale, ys, -, hys, rfl⟩
  · have hinside := inside_records h.fits hin
    rw [hbody] at hinside
    exact Nat.lt_trans hinside (by decide)
  · rw [frame_append, (payload_records h.fits).1] at hbody
    exact absurd hbody ((run_end hys).2.2 n)

/-- The byte that ends the stream is the status of the server, and behind it the frontend has
    got the image. -/
theorem NetScan.Inv.ended (h : s.Inv events) (hend : frame s.client.received = .ended b) :
    s.client.returned = serverImage (passesOf events) ∧
      ∃ st, ending (passesOf events) = some st ∧ b.toInt = st.toInt := by
  obtain ⟨hframe, hpayload⟩ := payload_records h.fits
  rcases h.position h.received with hin | ⟨st, stale, ys, hst, hys, hxs⟩
  · have hinside := inside_records h.fits hin
    rw [hend] at hinside
    exact hinside.elim
  · obtain ⟨hnothing, hbyte, -⟩ := run_end hys
    rw [hxs, frame_append, hframe] at hend
    refine ⟨?_, st, hst, ?_⟩
    · rw [h.returned, hxs, payload_append, hframe, hpayload, hnothing, List.append_nil]
    · rw [hbyte b hend]
      cases st <;> rfl

/-- A server that has come to its end leaves bytes for a client that has not. -/
theorem NetScan.Inv.goes_on (h : s.Inv events) (hfin : s.server.Finished)
    (hdata : s.client.data = true) : s.inFlight ≠ [] := by
  intro hnil
  obtain ⟨rest, hrest⟩ := h.received
  rw [NetScan.inFlight, ← hrest, List.drop_left] at hnil
  rw [hnil, List.append_nil] at hrest
  obtain ⟨hleft, hagain⟩ := hfin
  have hempty : s.server.pending = [] := by
    have hbytes : s.server.bytesInBuf = 0 := by
      by_contra hne
      exact hagain (.inr (.inl (by omega)))
    rw [ScanLoop.pending, hbytes, RingBuffer.ring_zero]
  cases h.server.phase with
  | scanning _ _ hstatus =>
    exact hagain (.inl (hstatus.resolve_left (by simp [hleft])))
  | closing _ _ _ hdirty => exact hagain (.inr (.inr hdirty))
  | ended _ _ _ _ hsent =>
    rw [hempty, List.append_nil] at hsent
    have hframe := h.framed.frame hdata
    rw [hrest, hsent, List.append_assoc, frame_append, (payload_records h.fits).1,
      run_endMark] at hframe
    split at hframe <;> cases hframe

/-- A call whose bytes come from the socket. -/
theorem NetScan.Inv.call (ho : o.mustSwap = false) (h : s.Inv events)
    (hmax : 0 ≤ c.maxLength.toInt) (hsock : c.FromSocket s.client s.inFlight) :
    ∃ r client', saneRead o s.client c = .ok (r, client') ∧ r.Faithful o s.client client' c ∧
      client'.leftOver = none ∧ client'.received <+: s.server.written := by
  have hflight : ∀ taken, taken <+: s.inFlight → s.client.received ++ taken <+: s.server.written :=
    fun taken htaken => prefix_of_drop h.received htaken
  have hsmall : ∀ t, s.client.atData o c = some t → t.bytesRemaining < 2 ^ 31 := by
    intro t ht
    obtain ⟨taken, hreceived, htaken⟩ := atData_received hsock ht
    have hreach := atData_reaches h.framed ht
    by_cases hzero : t.bytesRemaining = 0
    · omega
    · have hframe := hreach.framed.frame hreach.data
      rw [if_neg hzero, hreceived] at hframe
      exact h.body_lt (hflight taken htaken) hframe
  obtain ⟨r, client', hrun, hfaithful, hleft⟩ := saneRead_faithful h.framed hmax
    ⟨hsmall, fun hpending => absurd hpending.1 (by simp [ho])⟩ fun _ => h.leftOver
  obtain ⟨taken, hreceived, htaken⟩ := saneRead_received h.framed.offset hsock hrun
  exact ⟨r, client', hrun, hfaithful, hleft ho, hreceived ▸ hflight taken htaken⟩

theorem NetScan.Inv.step (ho : o.mustSwap = false) (h : s.Inv events) {e : NetEvent}
    (hstep : NetEvent.Step o s e s') : s'.Inv (events ++ [e]) := by
  cases e with
  | server p =>
    obtain ⟨hpass, hclient⟩ := hstep
    have hpasses : passesOf (events ++ [.server p]) = passesOf events ++ [p] := by simp [passesOf]
    refine ⟨hpasses ▸ h.server.step hpass, fun q hq => ?_, hclient ▸ h.framed, hclient ▸ h.leftOver,
      hclient ▸ h.returned, hclient ▸ h.received.trans hpass.written⟩
    rw [hpasses, List.mem_append, List.mem_singleton] at hq
    rcases hq with hq | rfl
    · exact h.fits q hq
    · exact hpass.fits
  | client c =>
    obtain ⟨hmax, hsock, ⟨r, hrun⟩, hserver⟩ := hstep
    have hpasses : passesOf (events ++ [.client c]) = passesOf events := by simp [passesOf]
    obtain ⟨r', client', hrun', hfaithful, hleft, hreceived⟩ := h.call ho hmax hsock
    rw [hrun] at hrun'
    cases hrun'
    refine ⟨by rw [hpasses, hserver]; exact h.server, by rw [hpasses]; exact h.fits,
      hfaithful.framed, hleft, ?_, by rw [hserver]; exact hreceived⟩
    rw [hfaithful.returned, hfaithful.payload ho, h.returned]

end

/-- However the two programs take turns and however the bytes are cut on their way, with the
    byte order of the server the frontend gets a beginning of the image, every call is
    faithful, and once the end is reported the image is complete and the status is that of
    the server.  A server that is done has left bytes for a client that is not. -/
theorem scan_over_network {buf reclenBuf : List SaneByte} {selectFd : Bool}
    {events : List NetEvent} {s : NetScan} (ho : o.mustSwap = false)
    (hbuf : buf.length = SCAN_BUF_SIZE) (hreclen : reclenBuf.length = 4)
    (hrun : Run (NetEvent.Step o) (.started buf reclenBuf selectFd) events s) :
    s.client.returned <+: serverImage (passesOf events) ∧
      (∀ c, 0 ≤ c.maxLength.toInt → c.FromSocket s.client s.inFlight →
        ∃ r client', saneRead o s.client c = .ok (r, client') ∧ r.Faithful o s.client client' c) ∧
      (∀ b, frame s.client.received = .ended b →
        s.client.returned = serverImage (passesOf events) ∧
          ∃ st, ending (passesOf events) = some st ∧ b.toInt = st.toInt) ∧
      (s.server.Finished → s.client.data = true → s.inFlight ≠ []) := by
  have hinv : s.Inv events := by
    refine hrun.history (I := fun events s => s.Inv events) ?_
      fun _ _ _ _ h hstep => NetScan.Inv.step ho h hstep
    exact ⟨ScanLoop.initial_inv hbuf selectFd, fun p hp => (by cases hp),
      NetScanner.started_framed hreclen, rfl, rfl, List.nil_prefix⟩
  refine ⟨hinv.returned ▸ hinv.payload_prefix hinv.received, fun c hmax hsock => ?_,
    fun b => hinv.ended, hinv.goes_on⟩
  obtain ⟨r, client', hcall, hfaithful, -⟩ := hinv.call ho hmax hsock
  exact ⟨r, client', hcall, hfaithful⟩

instance (inFlight : List SaneByte) (d : SocketRead) : Decidable (d.From inFlight) :=
  match d with
  | .deliver there => inferInstanceAs (Decidable (there <+: inFlight))
  | .again | .fail => .isTrue trivial

instance (s : NetScanner) (inFlight : List SaneByte) (c : ReadCall) :
    Decidable (c.FromSocket s inFlight) := inferInstanceAs (Decidable (_ ∧ _))

/-- One event, when it is possible. -/
def NetEvent.exec? (o : ByteOrder) (s : NetScan) : NetEvent → Option NetScan
  | .server p => (s.server.step? p).map fun u => { s with server := u }
  | .client c =>
    if 0 ≤ c.maxLength.toInt ∧ c.FromSocket s.client s.inFlight then
      match saneRead o s.client c with
      | .ok (_, u) => some { s with client := u }
      | .error _ => none
    else none

theorem step_of_exec? (o : ByteOrder) (s : NetScan) (e : NetEvent) (s' : NetScan)
    (h : e.exec? o s = some s') : NetEvent.Step o s e s' := by
  cases e with
  | server p =>
    obtain ⟨server, hstep, rfl⟩ := Option.map_eq_some_iff.mp h
    exact ⟨step_of_step? hstep, rfl⟩
  | client c =>
    simp only [NetEvent.exec?, Option.ite_none_right_eq_some] at h
    obtain ⟨⟨hmax, hsock⟩, hcall⟩ := h
    split at hcall
    · rename_i r client hrun
      cases hcall
      exact ⟨hmax, hsock, ⟨r, hrun⟩, rfl⟩
    · cases hcall

/-- Two bytes are read and sent in pieces while the client takes what is there. -/
def interleavedScan : List NetEvent :=
  [.server (.ready (.read .good [7, 8, 9] 2) none), .server (.ready (.write (some 3)) none),
    .client ⟨10, .deliver [0, 0, 0], .again⟩, .server .badFd,
    .server (.ready (.write (some 3)) none), .client ⟨10, .deliver [2], .deliver [7]⟩,
    .server (.ready (.write (some 5)) none), .client ⟨10, .again, .deliver [8, 0xff]⟩,
    .client ⟨10, .deliver [0xff, 0xff, 0xff, 0xff], .deliver [5]⟩]

theorem scan_over_network_interleaved :
    ∃ s, runAll (NetEvent.exec? ⟨8, false, false⟩) interleavedScan
        (.started (List.replicate SCAN_BUF_SIZE 0) [0, 0, 0, 0] true) = some s ∧
      s.client.returned = serverImage (passesOf interleavedScan) ∧
      ∃ st, ending (passesOf interleavedScan) = some st ∧ (5 : SaneByte).toInt = st.toInt := by
  have hsome : (runAll (NetEvent.exec? ⟨8, false, false⟩) interleavedScan
      (.started (List.replicate SCAN_BUF_SIZE 0) [0, 0, 0, 0] true)).any
        (fun s => decide (frame s.client.received = .ended 5)) = true := by
    decide +kernel
  obtain ⟨s, hrun, hs⟩ := (Option.any_eq_true ..).mp hsome
  have hend : frame s.client.received = .ended 5 := of_decide_eq_true hs
  obtain ⟨-, -, hended, -⟩ := @scan_over_network ⟨8, false, false⟩ _ _ _ _ _ rfl
    List.length_replicate rfl (Run.of_runAll hrun (step_of_exec? _))
  exact ⟨s, hrun, hended 5 hend⟩

end SaneBackends
