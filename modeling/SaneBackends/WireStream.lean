import SaneBackends.WireCodec

/-!
# The byte streams behind the wire

The buffer hides how the bytes of a value are cut into reads and writes.  Seen
from outside there is one stream in each direction: `Wire.stream` is what has been
accepted by `io.write` together with what waits in the buffer, `Wire.pending` is
what the buffer still holds together with what the peer has sent.  `sanei_w_space`
changes neither, whatever pieces the environment chooses; it only makes room, or
makes the next bytes available, or sets the wire status.
-/

namespace SaneBackends

open FaultState WordBytes Overwrite

/-- Offsets in order and inside the memory, and room for a word. -/
structure WireBuffer.Ok (b : WireBuffer) : Prop where
  curr_le : b.curr ≤ b.endp
  endp_le : b.endp ≤ b.size
  length : b.mem.length = b.size
  room : 4 ≤ b.size

/-- The bytes between `curr` and `end`. -/
def WireBuffer.unread (b : WireBuffer) : List SaneByte := (b.mem.drop b.curr).take (b.endp - b.curr)

/-- The bytes between `start` and `curr`. -/
def WireBuffer.unsent (b : WireBuffer) : List SaneByte := b.mem.take b.curr

def Wire.pending (w : Wire) : List SaneByte := w.buffer.unread ++ w.io.inbound

def Wire.stream (w : Wire) : List SaneByte := w.io.sent ++ w.buffer.unsent

theorem WireBuffer.Ok.length_unread {b : WireBuffer} (h : b.Ok) :
    b.unread.length = b.endp - b.curr := by
  have := h.endp_le
  have := h.length
  simp only [WireBuffer.unread, List.length_take, List.length_drop]
  omega

theorem WireBuffer.Ok.length_unsent {b : WireBuffer} (h : b.Ok) :
    b.unsent.length = b.curr := by
  have := h.curr_le
  have := h.endp_le
  have := h.length
  simp only [WireBuffer.unsent, List.length_take]
  omega

/-! ### The two loops -/

/-- Every call of `io.read` delivers at least one byte. -/
def ReadsDeliver (rs : List ReadResult) : Prop := ∀ r ∈ rs, ∃ n, 0 < n ∧ r = .deliver n

/-- No call of `io.write` fails. -/
def WritesAccept (ws : List WriteResult) : Prop := ∀ r ∈ ws, ∃ n, r = .accept n

/-- What a run of the reading loop keeps: the order of the bytes and the bound. -/
theorem readLoop_keeps (size howmuch : Nat) (rs : List ReadResult)
    (inbound held : List SaneByte) (hheld : held.length ≤ size) :
    (readLoop size howmuch rs inbound held).held
        ++ (readLoop size howmuch rs inbound held).inbound = held ++ inbound ∧
      (readLoop size howmuch rs inbound held).held.length ≤ size ∧
      ((readLoop size howmuch rs inbound held).error = none →
        howmuch ≤ (readLoop size howmuch rs inbound held).held.length) := by
  induction rs generalizing inbound held with
  | nil =>
    simp only [readLoop]
    split_ifs with h0 h1
    · exact ⟨rfl, hheld, by simp⟩
    · refine ⟨by simp, ?_, by simp⟩
      simp only [List.length_append, List.length_take]
      omega
    · refine ⟨by simp, ?_, fun _ => ?_⟩ <;>
        simp only [List.length_append, List.length_take] <;> omega
  | cons r rs ih =>
    cases r with
    | fail e => exact ⟨rfl, hheld, by simp [readLoop]⟩
    | deliver n =>
      simp only [readLoop]
      split_ifs with h0 h1
      · exact ⟨rfl, hheld, by simp⟩
      · have hlen : (held ++ inbound.take (min n (min (size - held.length) inbound.length))).length
            ≤ size := by
          simp only [List.length_append, List.length_take]
          omega
        obtain ⟨happ, hbound, hmuch⟩ := ih _ _ hlen
        exact ⟨by rw [happ]; simp, hbound, hmuch⟩
      · refine ⟨by simp, ?_, fun _ => ?_⟩ <;>
          simp only [List.length_append, List.length_take] <;> omega

/-- When enough bytes are on their way, a reading loop that never fails gets them. -/
theorem readLoop_delivers (size howmuch : Nat) (rs : List ReadResult)
    (inbound held : List SaneByte) (hrs : ReadsDeliver rs) (hsize : howmuch ≤ size)
    (hheld : held.length < howmuch) (hmuch : howmuch ≤ held.length + inbound.length) :
    (readLoop size howmuch rs inbound held).error = none ∧
      ReadsDeliver (readLoop size howmuch rs inbound held).script := by
  induction rs generalizing inbound held with
  | nil =>
    simp only [readLoop]
    rw [if_neg (by omega), if_neg (by omega)]
    exact ⟨rfl, by simp [ReadsDeliver]⟩
  | cons r rs ih =>
    obtain ⟨n, hn, rfl⟩ := hrs r (by simp)
    have hrest : ReadsDeliver rs := fun x hx => hrs x (by simp [hx])
    simp only [readLoop]
    rw [if_neg (by omega)]
    split_ifs with h1
    · apply ih _ _ hrest
      · simp only [List.length_append, List.length_take]
        omega
      · simp only [List.length_append, List.length_take, List.length_drop]
        omega
    · exact ⟨rfl, hrest⟩

/-- The writing loop hands over a prefix of its bytes, and all of them unless it fails. -/
theorem writeLoop_keeps (ws : List WriteResult) (bs : List SaneByte) :
    (writeLoop ws bs).accepted <+: bs ∧
      ((writeLoop ws bs).error = none → (writeLoop ws bs).accepted = bs) := by
  induction ws generalizing bs with
  | nil => cases bs <;> simp [writeLoop]
  | cons r ws ih =>
    cases bs with
    | nil => cases r <;> simp [writeLoop]
    | cons b bs =>
      cases r with
      | fail e => simp [writeLoop]
      | accept n =>
        obtain ⟨hpre, hall⟩ := ih ((b :: bs).drop n)
        have hsplit : (b :: bs).take n ++ (b :: bs).drop n = b :: bs := List.take_append_drop _ _
        simp only [writeLoop]
        constructor
        · conv_rhs => rw [← hsplit]
          exact (List.prefix_append_right_inj _).mpr hpre
        · intro herr
          rw [hall herr, hsplit]

theorem writeLoop_accepts (ws : List WriteResult) (bs : List SaneByte) (hws : WritesAccept ws) :
    (writeLoop ws bs).error = none ∧ WritesAccept (writeLoop ws bs).script := by
  induction ws generalizing bs with
  | nil => cases bs <;> simp [writeLoop, WritesAccept]
  | cons r ws ih =>
    obtain ⟨n, rfl⟩ := hws r (by simp)
    have hrest : WritesAccept ws := fun x hx => hws x (by simp [hx])
    cases bs with
    | nil => exact ⟨rfl, hws⟩
    | cons b bs => exact ih _ hrest

/-! ### `sanei_w_space` -/

/-- A wire that decodes, of protocol version `ver`. -/
structure Wire.InDecode (ver : Int) (w : Wire) : Prop where
  dir : w.direction = .decode
  version : w.version = ver
  buf : w.buffer.Ok

/-- A wire that decodes without an error so far, in an environment where reads
    deliver and allocations succeed. -/
structure Wire.Ready (ver : Int) (w : Wire) : Prop extends w.InDecode ver where
  good : w.status = 0
  reads : ReadsDeliver w.io.reads
  mallocs : ∀ ok ∈ w.heap.mallocs, ok = true

/-- A wire that encodes, of protocol version `ver`. -/
structure Wire.InEncode (ver : Int) (w : Wire) : Prop where
  dir : w.direction = .encode
  version : w.version = ver
  buf : w.buffer.Ok
  full : w.buffer.endp = w.buffer.size

/-- Nothing but the input side of the wire and its status differs. -/
structure Wire.SameOutput (w w' : Wire) : Prop where
  dir : w'.direction = w.direction
  version : w'.version = w.version
  sent : w'.io.sent = w.io.sent
  allocated : w'.allocatedMemory = w.allocatedMemory
  heap : w'.heap = w.heap

theorem Wire.SameOutput.refl (w : Wire) : w.SameOutput w := ⟨rfl, rfl, rfl, rfl, rfl⟩

theorem Wire.refill_keeps (w : Wire) (n : Nat) (hb : w.buffer.Ok) :
    (w.refill n).buffer.Ok ∧ (w.refill n).pending = w.pending ∧ w.SameOutput (w.refill n) ∧
      ((w.refill n).status = 0 → n ≤ (w.refill n).buffer.unread.length) := by
  have hheld : w.buffer.unread.length ≤ w.buffer.size := by
    have := hb.length_unread
    have := hb.endp_le
    omega
  obtain ⟨happ, hbound, hmuch⟩ :=
    readLoop_keeps w.buffer.size n w.io.reads w.io.inbound w.buffer.unread hheld
  have hcurr : ¬ w.buffer.endp < w.buffer.curr := Nat.not_lt.mpr hb.curr_le
  have hlen : (overwrite w.buffer.mem 0
      (readLoop w.buffer.size n w.io.reads w.io.inbound w.buffer.unread).held).length =
        w.buffer.size := by
    rw [length_overwrite (by have := hb.length; omega), hb.length]
  have hok : (w.refill n).buffer.Ok := by
    rw [Wire.refill, if_neg hcurr]
    exact ⟨Nat.zero_le _, hbound, hlen, hb.room⟩
  have hunread : (w.refill n).buffer.unread =
      (readLoop w.buffer.size n w.io.reads w.io.inbound w.buffer.unread).held := by
    rw [Wire.refill, if_neg hcurr]
    simp only [WireBuffer.unread, List.drop_zero, Nat.sub_zero]
    exact take_overwrite_zero _ _
  refine ⟨hok, ?_, ?_, fun hst => ?_⟩
  · rw [Wire.pending, hunread, Wire.refill, if_neg hcurr]
    exact happ
  · rw [Wire.refill, if_neg hcurr]
    exact ⟨rfl, rfl, rfl, rfl, rfl⟩
  · rw [hunread]
    apply hmuch
    rw [Wire.refill, if_neg hcurr] at hst
    cases herr : (readLoop w.buffer.size n w.io.reads w.io.inbound w.buffer.unread).error with
    | none => rfl
    | some e =>
      simp only [WireBuffer.unread] at herr
      simp only [herr] at hst
      exact absurd hst e.2

/-- In `WIRE_DECODE`, `sanei_w_space` keeps the stream that is still to be read.  If
    the status stays good, the bytes asked for lie in the buffer. -/
theorem Wire.InDecode.space {ver : Int} {w : Wire} (h : w.InDecode ver) (n : Nat) :
    (w.space n).InDecode ver ∧ (w.space n).pending = w.pending ∧ w.SameOutput (w.space n) ∧
      ((w.space n).status = 0 → w.status = 0 ∧ n ≤ (w.space n).buffer.unread.length) := by
  by_cases hs : w.status = 0
  · by_cases hfit : w.buffer.curr + n ≤ w.buffer.endp
    · have hsp : w.space n = w := by simp [Wire.space, hs, hfit]
      rw [hsp]
      refine ⟨h, rfl, .refl w, fun _ => ⟨hs, ?_⟩⟩
      rw [h.buf.length_unread]
      omega
    · have hsp : w.space n = w.refill n := by simp [Wire.space, hs, hfit, h.dir]
      rw [hsp]
      obtain ⟨hok, hpend, hsame, hmuch⟩ := w.refill_keeps n h.buf
      exact ⟨⟨hsame.dir.trans h.dir, hsame.version.trans h.version, hok⟩, hpend, hsame,
        fun hst => ⟨hs, hmuch hst⟩⟩
  · have hsp : w.space n = w := by simp [Wire.space, hs]
    rw [hsp]
    exact ⟨h, rfl, .refl w, fun hst => absurd hst hs⟩

/-- When the bytes asked for are on their way, `sanei_w_space` gets them. -/
theorem Wire.Ready.space {ver : Int} {w : Wire} (h : w.Ready ver) {n : Nat}
    (hsize : n ≤ w.buffer.size) (hn : n ≤ w.pending.length) : (w.space n).Ready ver := by
  obtain ⟨hdec, -, hsame, -⟩ := h.toInDecode.space n
  by_cases hfit : w.buffer.curr + n ≤ w.buffer.endp
  · have hsp : w.space n = w := by simp [Wire.space, hfit]
    rwa [hsp]
  · have hsp : w.space n = w.refill n := by simp [Wire.space, h.good, hfit, h.dir]
    have hcurr : ¬ w.buffer.endp < w.buffer.curr := Nat.not_lt.mpr h.buf.curr_le
    have hlen := h.buf.length_unread
    have htotal : n ≤ w.buffer.unread.length + w.io.inbound.length := by
      rwa [Wire.pending, List.length_append] at hn
    obtain ⟨herr, hscript⟩ := readLoop_delivers w.buffer.size n w.io.reads w.io.inbound
      w.buffer.unread h.reads hsize (by omega) htotal
    have hmallocs : ∀ ok ∈ (w.space n).heap.mallocs, ok = true := by
      rw [hsame.heap]
      exact h.mallocs
    rw [hsp] at hdec hmallocs ⊢
    simp only [WireBuffer.unread] at herr hscript
    refine ⟨hdec, ?_, ?_, hmallocs⟩
    · rw [Wire.refill, if_neg hcurr]
      simp only [herr, h.good]
    · rw [Wire.refill, if_neg hcurr]
      exact hscript

/-- Nothing but the output side of the wire and its status differs, and what was
    accepted before stays accepted. -/
structure Wire.SameInput (w w' : Wire) : Prop where
  dir : w'.direction = w.direction
  version : w'.version = w.version
  size : w'.buffer.size = w.buffer.size
  sent : w.io.sent <+: w'.io.sent

/-- Draining sends what waits in the buffer, in order; an error can only cut it short. -/
theorem Wire.drain_keeps (w : Wire) (hb : w.buffer.Ok) (hs : w.status = 0) :
    w.drain.buffer.Ok ∧ w.SameInput w.drain ∧
      ((w.drain.status = 0 ∧ w.drain.buffer.curr = 0 ∧ w.drain.buffer.endp = w.buffer.size ∧
          w.drain.io.sent = w.stream) ∨
        (w.drain.status ≠ 0 ∧ w.drain.io.sent <+: w.stream)) ∧
      (WritesAccept w.io.writes → w.drain.status = 0 ∧ WritesAccept w.drain.io.writes) := by
  obtain ⟨hpre, hall⟩ := writeLoop_keeps w.io.writes w.buffer.unsent
  have hunsent := hb.length_unsent
  have hlen := hpre.length_le
  have haccepts := writeLoop_accepts w.io.writes w.buffer.unsent
  simp only [WireBuffer.unsent] at hpre hall hunsent hlen haccepts
  cases herr : (writeLoop w.io.writes (w.buffer.mem.take w.buffer.curr)).error with
  | none =>
    simp only [Wire.drain, herr]
    refine ⟨⟨Nat.zero_le _, le_refl _, hb.length, hb.room⟩, ⟨rfl, rfl, rfl, ?_⟩,
      .inl ⟨hs, trivial, trivial, ?_⟩, fun hws => ⟨hs, (haccepts hws).2⟩⟩
    · exact List.prefix_append _ _
    · rw [hall herr]
      rfl
  | some e =>
    simp only [Wire.drain, herr]
    have hcurr := hb.curr_le
    refine ⟨⟨by simp only; omega, hb.endp_le, hb.length, hb.room⟩, ⟨rfl, rfl, rfl, ?_⟩,
      .inr ⟨e.2, ?_⟩, fun hws => ?_⟩
    · exact List.prefix_append _ _
    · exact (List.prefix_append_right_inj _).mpr hpre
    · rw [(haccepts hws).1] at herr
      cases herr

/-- In `WIRE_ENCODE`, `sanei_w_space` keeps the stream that has been produced and
    makes room, or else what has been accepted is a prefix of that stream. -/
theorem Wire.InEncode.space {ver : Int} {w : Wire} (h : w.InEncode ver) (hs : w.status = 0)
    (n : Nat) (hn : n ≤ w.buffer.size) :
    (w.space n).buffer.Ok ∧ w.SameInput (w.space n) ∧
      (((w.space n).status = 0 ∧ (w.space n).buffer.endp = w.buffer.size ∧
          (w.space n).buffer.curr + n ≤ w.buffer.size ∧ (w.space n).stream = w.stream) ∨
        ((w.space n).status ≠ 0 ∧ (w.space n).io.sent <+: w.stream)) ∧
      (WritesAccept w.io.writes →
        (w.space n).status = 0 ∧ WritesAccept (w.space n).io.writes) := by
  by_cases hfit : w.buffer.curr + n ≤ w.buffer.endp
  · have hsp : w.space n = w := by simp [Wire.space, hfit]
    rw [hsp]
    have hfull := h.full
    exact ⟨h.buf, ⟨rfl, rfl, rfl, List.prefix_refl _⟩, .inl ⟨hs, hfull, by omega, rfl⟩,
      fun hws => ⟨hs, hws⟩⟩
  · have hsp : w.space n = w.drain := by simp [Wire.space, hs, hfit, h.dir]
    rw [hsp]
    obtain ⟨hok, hsame, hout, hacc⟩ := w.drain_keeps h.buf hs
    refine ⟨hok, hsame, ?_, hacc⟩
    rcases hout with ⟨hst, hcurr, hend, hsent⟩ | hfail
    · refine .inl ⟨hst, hend, by omega, ?_⟩
      rw [Wire.stream, WireBuffer.unsent, hcurr, List.take_zero, List.append_nil, hsent]
    · exact .inr hfail

@[simp] theorem Wire.space_of_free {w : Wire} (h : w.direction = .free) (n : Nat) :
    w.space n = w := by
  unfold Wire.space
  split_ifs <;> simp [h]

@[simp] theorem Wire.space_of_bad {w : Wire} (h : w.status ≠ 0) (n : Nat) : w.space n = w := by
  simp [Wire.space, h]

end SaneBackends
