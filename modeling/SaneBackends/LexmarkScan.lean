import SaneBackends.LexmarkLayout

/-!
# The image of a Lexmark scan

What the frontend gets from the calls of `sane_read` of a scan.
-/

namespace SaneBackends.Lexmark

open BytePairs LabelledRun LineAssembly RingMemory

/-- A scan; the coefficients of the shading are behind `shade`. -/
structure Scan where
  mode : Mode
  threshold : SaneByte
  shade : Nat → SaneByte → SaneByte
  pixels : Nat
  lines : Nat
  pixels_pos : 0 < pixels := by decide

def Scan.layout (scan : Scan) : Layout SaneByte :=
  Lexmark.layout scan.mode scan.threshold scan.pixels scan.pixels_pos

/-- `params.bytes_per_line` -/
def Scan.bytesPerLine (scan : Scan) : Nat :=
  match scan.mode with
  | .color => 3 * scan.pixels
  | .gray => scan.pixels
  | .lineart => (7 + scan.pixels) / 8

/-- `data_size`: the bytes that come from the scanner, one for each sample. -/
def Scan.dataSize (scan : Scan) : Nat :=
  match scan.mode with
  | .color => 3 * scan.pixels * scan.lines
  | _ => scan.pixels * scan.lines

/-- The image that the bytes from the scanner make: they are shaded, every pair is exchanged,
    and each line is put together from its planes or its pixels. -/
def Scan.image (scan : Scan) (received : List SaneByte) : List SaneByte :=
  scan.layout.image (swapPairs (shaded scan.shade scan.bytesPerLine 0 received))

/-- The device after `sane_start`. -/
def Scan.start (scan : Scan) (fresh : Nat → SaneByte) : Device where
  mode := scan.mode
  threshold := scan.threshold
  shade := scan.shade
  readBuffer := readBufferInit scan.bytesPerLine scan.pixels fresh
  transferBuffer := none
  bytesRemaining := scan.dataSize
  bytesRead := 0
  eof := false

variable {scan : Scan} {rb : ReadBuffer} {unread cur xs ys out : List SaneByte} {x : SaneByte}

theorem Scan.bytesPerLine_eq (scan : Scan) : scan.bytesPerLine = scan.layout.size := by
  rw [Scan.bytesPerLine, Scan.layout]
  cases scan.mode with
  | color => rfl
  | gray => rfl
  | lineart => rw [Nat.add_comm]; rfl

/-! ### The read buffer -/

/-- The read buffer holds the bytes `unread`, and behind them the bytes `cur` of a line. -/
structure ReadBuffer.Filled (scan : Scan) (rb : ReadBuffer) (unread cur : List SaneByte) :
    Prop where
  holds : Holds scan.layout rb.data rb.size rb.readptr unread cur
  writeptr : rb.writeptr = (rb.readptr + unread.length) % rb.size
  lines : ∃ m, rb.maxWriteptr = m * scan.layout.size ∧ rb.size = (m + 1) * scan.layout.size
  aligned : ∃ k, rb.writeptr = k * scan.layout.size
  empty : rb.empty = decide (unread = [])
  linesize : rb.linesize = scan.layout.size
  position : rb.At scan.mode scan.pixels cur.length

theorem ReadBuffer.Filled.writeptr_lt (h : rb.Filled scan unread cur) : rb.writeptr < rb.size :=
  h.writeptr ▸ Nat.mod_lt _ (Nat.lt_of_le_of_lt (Nat.zero_le _) h.holds.off_lt)

theorem layout_size_pos (scan : Scan) : 0 < scan.layout.size :=
  Nat.lt_of_le_of_lt (Nat.zero_le _) (scan.layout.place_lt scan.layout.raw_pos)

/-- The line that is being put together lies before the end of the buffer. -/
theorem ReadBuffer.Filled.line_fits (h : rb.Filled scan unread cur) :
    rb.writeptr + scan.layout.size ≤ rb.size ∧
      (rb.writeptr = rb.maxWriteptr ↔ rb.writeptr + scan.layout.size = rb.size) := by
  obtain ⟨m, hmax, hsize⟩ := h.lines
  obtain ⟨k, hk⟩ := h.aligned
  have hpos := layout_size_pos scan
  have hlt := h.writeptr_lt
  rw [hk, hsize] at hlt
  have hkm : k ≤ m := Nat.lt_succ_iff.mp (Nat.lt_of_mul_lt_mul_right hlt)
  have hmul : k * scan.layout.size ≤ m * scan.layout.size := Nat.mul_le_mul_right _ hkm
  rw [Nat.succ_mul] at hsize
  constructor <;> omega

/-- Where a cell of that line is. -/
theorem ReadBuffer.Filled.cell_address (h : rb.Filled scan unread cur) {o : Nat}
    (ho : o < scan.layout.size) :
    (rb.readptr + unread.length + o) % rb.size = rb.writeptr + o := by
  have hfits := h.line_fits.1
  rw [Nat.add_mod, ← h.writeptr, Nat.mod_eq_of_lt (show o < rb.size by omega),
    Nat.mod_eq_of_lt (by omega)]

/-- A byte is added where no byte stands that is still to be read. -/
theorem ReadBuffer.Filled.add (h : rb.Filled scan unread cur)
    (hroom : unread.length + scan.layout.place cur.length < rb.size) :
    (cur.length + 1 < scan.layout.raw →
      (Lexmark.add scan.mode scan.threshold rb x).Filled scan unread (cur ++ [x])) ∧
    (cur.length + 1 = scan.layout.raw →
      (Lexmark.add scan.mode scan.threshold rb x).Filled scan
        (unread ++ scan.layout.line (cur ++ [x])) []) ∧
    (Lexmark.add scan.mode scan.threshold rb x).size = rb.size := by
  have hplace := scan.layout.place_lt h.holds.inside
  have haddr := h.cell_address hplace
  obtain ⟨hfits, hend⟩ := h.line_fits
  obtain ⟨m, hmax, hsize⟩ := h.lines
  obtain ⟨k, hk⟩ := h.aligned
  have hadded : Added scan.mode scan.threshold scan.pixels scan.pixels_pos cur x rb
      (Lexmark.add scan.mode scan.threshold rb x) := by
    refine add_added h.position h.holds.inside fun hwritten => ?_
    have hpart := h.holds.part _ hplace hwritten
    rwa [haddr] at hpart
  generalize Lexmark.add scan.mode scan.threshold rb x = rb' at hadded ⊢
  have hdata : rb'.data =
      stored scan.layout rb.data rb.size (rb.readptr + unread.length) cur x := by
    rw [stored, haddr]
    exact hadded.data
  refine ⟨fun hinside => ?_, fun hlast => ?_, hadded.size⟩
  · obtain ⟨hpos, hwrite, hempty⟩ := hadded.inside hinside
    refine ⟨?_, ?_, ⟨m, ?_, ?_⟩, ⟨k, ?_⟩, ?_, ?_, ?_⟩
    · rw [hdata, hadded.size, hadded.readptr]
      exact h.holds.store_inside hroom (by omega) hinside
    · rw [hwrite, hadded.readptr, hadded.size, h.writeptr]
    · rw [hadded.maxWriteptr, hmax]
    · rw [hadded.size, hsize]
    · rw [hwrite, hk]
    · rw [hempty, h.empty]
    · rw [hadded.linesize, h.linesize]
    · rwa [List.length_append]
  · obtain ⟨hpos, hempty, hwrite⟩ := hadded.last hlast
    have hline : (unread ++ scan.layout.line (cur ++ [x])).length =
        unread.length + scan.layout.size := by
      rw [List.length_append, scan.layout.length_line]
    refine ⟨?_, ?_, ⟨m, ?_, ?_⟩, ?_, ?_, ?_, hpos⟩
    · rw [hdata, hadded.size, hadded.readptr]
      exact h.holds.store_last hroom (by omega) hlast
    · rw [hwrite, hadded.readptr, hadded.size, hline, ← Nat.add_assoc, Nat.add_mod, ← h.writeptr,
        h.linesize, Nat.add_mod_mod]
      split
      · rename_i hround
        rw [hend.mp hround, Nat.mod_self]
      · rename_i hround
        rw [Nat.mod_eq_of_lt]
        exact Nat.lt_of_le_of_ne hfits fun hall => hround (hend.mpr hall)
    · rw [hadded.maxWriteptr, hmax]
    · rw [hadded.size, hsize]
    · rw [hwrite]
      split
      · exact ⟨0, (Nat.zero_mul _).symm⟩
      · exact ⟨k + 1, by rw [h.linesize, hk, Nat.succ_mul]⟩
    · rw [hempty]
      have hpos := layout_size_pos scan
      refine (decide_eq_false fun hnil => ?_).symm
      rw [hnil] at hline
      simp only [List.length_nil] at hline
      omega
    · rw [hadded.linesize, h.linesize]

/-- The read buffer after bytes have been added, in terms of the stream `xs` that went into it:
    the lines of `xs` are what has been read and what is still to be read. -/
structure ReadBuffer.Streamed (scan : Scan) (rb : ReadBuffer) (xs out unread : List SaneByte) :
    Prop where
  filled : rb.Filled scan unread (scan.layout.rest xs)
  image : scan.layout.image xs = out ++ unread

/-- Bytes are added one after the other. -/
theorem ReadBuffer.Streamed.foldl (h : rb.Streamed scan xs out unread)
    (hroom : ∀ i < ys.length,
      unread.length + scan.layout.offset ((scan.layout.rest xs).length + i) < rb.size) :
    ∃ unread', (ys.foldl (Lexmark.add scan.mode scan.threshold) rb).Streamed scan (xs ++ ys) out
      unread' := by
  induction ys generalizing xs rb unread with
  | nil => exact ⟨unread, by rwa [List.append_nil]⟩
  | cons y ys ih =>
    have hinside := h.filled.holds.inside
    have hfirst := hroom 0 (Nat.succ_pos _)
    rw [Nat.add_zero, scan.layout.offset_inside hinside] at hfirst
    obtain ⟨hin, hend, hsize⟩ := h.filled.add (x := y) hfirst
    rw [List.foldl_cons, List.append_cons]
    rcases Nat.lt_or_eq_of_le (Nat.succ_le_of_lt hinside) with hmore | hlast
    · obtain ⟨hrest, himage⟩ := scan.layout.append_inside (x := y) hmore
      refine ih ⟨?_, himage.trans h.image⟩ fun i hi => ?_
      · rw [hrest]
        exact hin hmore
      have hnext := hroom (i + 1) (Nat.succ_lt_succ hi)
      rw [hrest, hsize, List.length_append, List.length_singleton, Nat.add_assoc, Nat.add_comm 1]
      exact hnext
    · obtain ⟨hrest, himage⟩ := scan.layout.append_last (x := y) hlast
      have hstreamed : (Lexmark.add scan.mode scan.threshold rb y).Streamed scan (xs ++ [y]) out
          (unread ++ scan.layout.line (scan.layout.rest xs ++ [y])) := by
        constructor
        · rw [hrest]
          exact hend hlast
        · rw [himage, h.image, List.append_assoc]
      refine ih hstreamed fun i hi => ?_
      · have hnext := hroom (i + 1) (Nat.succ_lt_succ hi)
        have hshift : (scan.layout.rest xs).length + (i + 1) = scan.layout.raw + i := by omega
        rw [hshift, scan.layout.offset_raw_add] at hnext
        rw [hrest, hsize, List.length_append, scan.layout.length_line, List.length_nil,
          Nat.zero_add]
        omega

/-- The bytes in the read buffer, from the two pointers. -/
def ReadBuffer.occupied (rb : ReadBuffer) : Nat :=
  if rb.empty then 0
  else if rb.writeptr > rb.readptr then rb.writeptr - rb.readptr
  else rb.size + rb.writeptr - rb.readptr

/-- The pointers of a buffer that is not empty. -/
theorem ReadBuffer.Filled.pointers (h : rb.Filled scan unread cur) (hne : unread ≠ []) :
    (rb.writeptr > rb.readptr ∧ rb.readptr + unread.length = rb.writeptr) ∨
      (¬ rb.writeptr > rb.readptr ∧ rb.readptr + unread.length = rb.size + rb.writeptr) := by
  have hoff := h.holds.off_lt
  have hfits := h.holds.fits
  have hpos := List.length_pos_iff.mpr hne
  have hmod := mod_cases (show rb.readptr + unread.length < 2 * rb.size by omega)
  rw [← h.writeptr] at hmod
  split at hmod <;> omega

theorem ReadBuffer.Filled.occupied_eq (h : rb.Filled scan unread cur) :
    rb.occupied = unread.length := by
  rw [ReadBuffer.occupied, h.empty]
  by_cases hnil : unread = []
  · simp [hnil]
  · rw [if_neg (by simpa using hnil)]
    rcases h.pointers hnil with ⟨hgt, hlen⟩ | ⟨hle, hlen⟩
    · rw [if_pos hgt]
      omega
    · rw [if_neg hle]
      omega

/-- What stands before the end of the buffer is in one piece. -/
theorem ReadBuffer.Filled.front_eq (h : rb.Filled scan unread cur) {k : Nat}
    (hk : k ≤ unread.length) (hend : rb.readptr + k ≤ rb.size) : rb.front k = unread.take k := by
  rw [← (h.holds.read hk).1, ReadBuffer.front, ring]
  apply List.map_congr_left
  intro j hj
  rw [Nat.mod_eq_of_lt]
  have hjk := List.mem_range.mp hj
  omega

/-- The read buffer after `k` bytes have been read. -/
theorem ReadBuffer.Filled.advance (h : rb.Filled scan unread cur) {k : Nat}
    (hk : k ≤ unread.length) :
    ({ rb with readptr := (rb.readptr + k) % rb.size, empty := decide (unread.drop k = []) } :
      ReadBuffer).Filled scan (unread.drop k) cur where
  holds := (h.holds.read hk).2
  writeptr := by
    change rb.writeptr = ((rb.readptr + k) % rb.size + (unread.drop k).length) % rb.size
    rw [h.writeptr, Nat.mod_add_mod, List.length_drop]
    congr 1
    omega
  lines := h.lines
  aligned := h.aligned
  empty := rfl
  linesize := h.linesize
  position := by
    have hpos := h.position
    cases hmode : scan.mode <;> rw [hmode] at hpos <;> exact hpos

/-- The same for a buffer whose fields are known. -/
theorem ReadBuffer.Filled.moved (h : rb.Filled scan unread cur) {k : Nat} (readptr : Nat)
    (empty : Bool) (hk : k ≤ unread.length) (hread : readptr = (rb.readptr + k) % rb.size)
    (hempty : empty = decide (unread.drop k = [])) :
    ({ rb with readptr, empty } : ReadBuffer).Filled scan (unread.drop k) cur := by
  rw [hread, hempty]
  exact h.advance hk

theorem drop_ne_nil {k : Nat} (h : k < unread.length) :
    false = decide (unread.drop k = []) := by
  refine (decide_eq_false fun hnil => ?_).symm
  have hlen := List.drop_eq_nil_iff.mp hnil
  omega

/-- Reading from a buffer whose bytes are in one piece. -/
theorem getBytes_ahead (h : rb.Filled scan unread cur) (depth size : Nat)
    (hahead : unread = [] ∨ rb.writeptr > rb.readptr) :
    ∃ rb', getBytes (depth + 1) rb size = (unread.take size, rb') ∧
      rb'.Filled scan (unread.drop size) cur := by
  rw [getBytes]
  by_cases hnil : unread = []
  · have hempty : rb.empty = true := by rw [h.empty, hnil]; rfl
    rw [if_pos hempty]
    exact ⟨rb, by rw [hnil, List.take_nil], by rw [hnil, List.drop_nil]; exact hnil ▸ h⟩
  · have hgt := hahead.resolve_left hnil
    have hempty : rb.empty = false := by rw [h.empty, decide_eq_false hnil]
    obtain ⟨-, hlen⟩ | ⟨hle, -⟩ := h.pointers hnil
    · have hlt := h.writeptr_lt
      have hall : rb.writeptr - rb.readptr = unread.length := by omega
      rw [hempty, if_neg Bool.false_ne_true, if_pos hgt]
      dsimp only
      rw [hall]
      split
      · rename_i hfits
        refine ⟨{ rb with readptr := rb.writeptr, empty := true }, ?_, ?_⟩
        · rw [h.front_eq (Nat.le_refl _) (by omega), List.take_length,
            List.take_of_length_le hfits]
        · have hmoved := h.moved rb.writeptr true (Nat.le_refl unread.length)
            (by rw [hlen, Nat.mod_eq_of_lt hlt]) (by simp)
          rw [List.drop_length] at hmoved
          rwa [List.drop_of_length_le hfits]
      · rename_i hmore
        refine ⟨_, by rw [h.front_eq (by omega) (by omega)], ?_⟩
        have hmoved := h.moved (k := size) (rb.readptr + size) false (by omega)
          (by rw [Nat.mod_eq_of_lt (by omega)]) (drop_ne_nil (by omega))
        exact hmoved
    · exact absurd hgt hle

/-- Reading takes the first bytes, also around the end of the buffer. -/
theorem getBytes_spec (h : rb.Filled scan unread cur) (size : Nat) :
    ∃ rb', getBytes 2 rb size = (unread.take size, rb') ∧
      rb'.Filled scan (unread.drop size) cur := by
  by_cases hahead : unread = [] ∨ rb.writeptr > rb.readptr
  · exact getBytes_ahead h 1 size hahead
  · rw [not_or] at hahead
    have hempty : rb.empty = false := by rw [h.empty, decide_eq_false hahead.1]
    have hoff := h.holds.off_lt
    obtain ⟨hgt, -⟩ | ⟨-, hlen⟩ := h.pointers hahead.1
    · exact absurd hgt hahead.2
    · rw [getBytes, hempty, if_neg Bool.false_ne_true, if_neg hahead.2]
      dsimp only
      split
      · rename_i hfits
        have hk : rb.size - rb.readptr ≤ unread.length := by omega
        have hround : 0 = (rb.readptr + (rb.size - rb.readptr)) % rb.size := by
          rw [Nat.add_sub_cancel' (Nat.le_of_lt hoff), Nat.mod_self]
        have hleft : decide (rb.writeptr = 0) =
            decide (unread.drop (rb.size - rb.readptr) = []) := by
          rw [decide_eq_decide, List.drop_eq_nil_iff]
          omega
        have hmoved := h.moved _ _ hk hround hleft
        obtain ⟨rb', hrest, hfilled⟩ := getBytes_ahead hmoved 0 (size - (rb.size - rb.readptr)) (by
          rw [List.drop_eq_nil_iff]
          change _ ∨ rb.writeptr > 0
          omega)
        refine ⟨rb', ?_, ?_⟩
        · rw [hrest, h.front_eq hk (by omega)]
          dsimp only
          rw [← List.take_add, Nat.add_sub_cancel' hfits]
        · rwa [List.drop_drop, Nat.add_sub_cancel' hfits] at hfilled
      · rename_i hmore
        refine ⟨_, by rw [h.front_eq (by omega) (by omega)], ?_⟩
        have hmoved := h.moved (k := size) (rb.readptr + size) false (by omega)
          (by rw [Nat.mod_eq_of_lt (by omega)]) (drop_ne_nil (by omega))
        exact hmoved

/-! ### Transfers -/

theorem exchanged_cons (a b : SaneByte) (transfer : List SaneByte) (garbage : SaneByte) (i : Nat) :
    exchanged (a :: b :: transfer) garbage (i + 2) = exchanged transfer garbage i := by
  rw [exchanged, exchanged, Nat.add_mod_right]
  split
  · rfl
  · rename_i hodd
    obtain ⟨j, rfl⟩ : ∃ j, i = j + 1 := Nat.exists_eq_succ_of_ne_zero fun h => hodd (by rw [h])
    rfl

/-- The bytes of a transfer of even length are taken with every pair exchanged. -/
theorem map_exchanged (garbage : SaneByte) : ∀ (transfer : List SaneByte),
    transfer.length % 2 = 0 →
      (List.range transfer.length).map (exchanged transfer garbage) = swapPairs transfer
  | [], _ => rfl
  | [_], h => by cases h
  | a :: b :: transfer, h => by
    have heven : transfer.length % 2 = 0 := by
      simp only [List.length_cons] at h
      omega
    have hshift : (exchanged (a :: b :: transfer) garbage ∘ Nat.succ) ∘ Nat.succ =
        exchanged transfer garbage := funext (exchanged_cons a b transfer garbage)
    rw [List.length_cons, List.length_cons, List.range_succ_eq_map, List.range_succ_eq_map,
      List.map_cons, List.map_map, List.map_cons, List.map_map, hshift,
      map_exchanged garbage transfer heven]
    rfl

theorem length_shaded (shade : Nat → SaneByte → SaneByte) (linesize k : Nat)
    (xs : List SaneByte) : (shaded shade linesize k xs).length = xs.length := by
  rw [shaded, List.length_mapIdx]

theorem shaded_append (shade : Nat → SaneByte → SaneByte) (linesize : Nat)
    (xs ys : List SaneByte) :
    shaded shade linesize 0 (xs ++ ys) =
      shaded shade linesize 0 xs ++ shaded shade linesize xs.length ys := by
  rw [shaded, shaded, shaded, List.mapIdx_append]
  simp only [Nat.zero_add, Nat.add_comm]

/-! ### The device -/

/-- The device has got the bytes `received` and given the bytes `out`; the bytes `xs` have been
    added to the read buffer, in which `unread` is still to be read. -/
structure Device.Reading (scan : Scan) (dev : Device) (received out xs unread : List SaneByte) :
    Prop where
  mode : dev.mode = scan.mode
  threshold : dev.threshold = scan.threshold
  shade : dev.shade = scan.shade
  streamed : dev.readBuffer.Streamed scan xs out unread
  stream : swapPairs (shaded scan.shade scan.bytesPerLine 0 received) =
    xs ++ swapPairs (dev.transferBuffer.getD [])
  even : received.length % 2 = 0
  pending : (dev.transferBuffer.getD []).length % 2 = 0
  count : dev.bytesRead = received.length
  total : dev.bytesRemaining + received.length = scan.dataSize

theorem Device.bytesInBuffer_eq (dev : Device) :
    dev.bytesInBuffer = (dev.transferBuffer.getD []).length := by
  rw [Device.bytesInBuffer]
  cases dev.transferBuffer <;> rfl

variable {dev : Device} {received : List SaneByte} {call : ReadCall}

theorem Device.Reading.length (h : dev.Reading scan received out xs unread) :
    received.length = xs.length + dev.bytesInBuffer := by
  have hlen := congrArg List.length h.stream
  rwa [length_swapPairs, length_shaded, List.length_append, length_swapPairs,
    ← dev.bytesInBuffer_eq] at hlen

/-- A transfer is needed. -/
def Device.needs (dev : Device) : Prop := dev.transferBuffer = none ∧ 0 < dev.bytesRemaining

instance (dev : Device) : Decidable dev.needs := inferInstanceAs (Decidable (_ ∧ _))

/-- The bytes that come from the scanner during a call. -/
def ReadCall.fetched (call : ReadCall) (dev : Device) : List SaneByte :=
  if dev.needs then call.transfer else []

/-- What the scanner and the frontend may do: a transfer has at least one byte and at most those
    that are asked for, and so has the buffer of the frontend. -/
structure ReadCall.Possible (call : ReadCall) (dev : Device) : Prop where
  room : 0 < call.maxLength
  transfer : dev.needs →
    0 < call.transfer.length ∧ call.transfer.length ≤ min dev.bytesRemaining MAX_XFER_SIZE

/-- The bytes of the transfer buffer, once it is filled. -/
def ReadCall.waiting (call : ReadCall) (dev : Device) : Nat :=
  dev.bytesInBuffer + (call.fetched dev).length

/-- There is room in the read buffer for all of the transfer buffer. -/
def ReadCall.Fits (call : ReadCall) (dev : Device) : Prop :=
  call.waiting dev ≤ bytesAvailable dev.readBuffer

instance (call : ReadCall) (dev : Device) : Decidable (call.Fits dev) :=
  inferInstanceAs (Decidable (_ ≤ _))

/-- The place of the next byte in the line that is being put together. -/
def Device.column (scan : Scan) (dev : Device) : Nat :=
  (dev.bytesRead - dev.bytesInBuffer) % scan.layout.raw

/-- The condition under which a call loses nothing. -/
structure ReadCall.Fine (scan : Scan) (call : ReadCall) (dev : Device) : Prop where
  /-- the wait for data and the allocation succeed -/
  served : dev.needs → call.poll = .good ∧ call.allocated = true
  /-- a transfer has whole pairs -/
  even : dev.needs → call.transfer.length % 2 = 0
  /-- no byte is put where one stands that is still to be read -/
  clear : call.Fits dev → ∀ i < call.waiting dev,
    dev.readBuffer.occupied + scan.layout.offset (dev.column scan + i) < dev.readBuffer.size
  /-- there is something to return, or nothing is left at all -/
  line : 0 < dev.readBuffer.occupied ∨
    call.Fits dev ∧ scan.layout.raw ≤ dev.column scan + call.waiting dev ∨
    call.waiting dev = 0 ∧ dev.bytesRemaining = 0
  /-- the frontend does not empty the read buffer while the last transfer waits -/
  kept : ¬ call.Fits dev → dev.bytesRemaining = (call.fetched dev).length →
    call.maxLength < dev.readBuffer.occupied

theorem fetch_idle (h : ¬ dev.needs) : fetch call dev = .ok dev := by
  rw [fetch]
  split
  · rfl
  · rename_i hnone
    rw [if_pos]
    exact Nat.eq_zero_of_not_pos fun hpos => h ⟨hnone, hpos⟩

/-- A transfer buffer is filled. -/
theorem fetch_reading (h : dev.Reading scan received out xs unread)
    (hcall : call.Possible dev) (hfine : call.Fine scan dev) :
    ∃ dev', fetch call dev = .ok dev' ∧
      dev'.Reading scan (received ++ call.fetched dev) out xs unread ∧
      dev'.readBuffer = dev.readBuffer ∧ dev'.bytesInBuffer = call.waiting dev ∧
      dev'.bytesRemaining + (call.fetched dev).length = dev.bytesRemaining ∧
      dev'.eof = dev.eof := by
  by_cases hneeds : dev.needs
  · obtain ⟨hpoll, hallocated⟩ := hfine.served hneeds
    obtain ⟨hpos, hle⟩ := hcall.transfer hneeds
    have heven := hfine.even hneeds
    have hfetched : call.fetched dev = call.transfer := if_pos hneeds
    obtain ⟨hnone, hremaining⟩ := hneeds
    have hline : dev.readBuffer.linesize = scan.bytesPerLine := by
      rw [h.streamed.filled.linesize, scan.bytesPerLine_eq]
    have hempty : dev.bytesInBuffer = 0 := by rw [Device.bytesInBuffer, hnone]
    have hstream := h.stream
    rw [hnone] at hstream
    have hxs : swapPairs (shaded scan.shade scan.bytesPerLine 0 received) = xs :=
      hstream.trans (List.append_nil xs)
    rw [hfetched]
    refine ⟨dev.fill call.transfer, ?_,
      ⟨h.mode, h.threshold, h.shade, h.streamed, ?_, ?_, ?_, ?_, ?_⟩, rfl, ?_, ?_, rfl⟩
    · rw [fetch, hnone]
      dsimp only
      rw [if_neg (by omega), if_neg (not_not.mpr hpoll), if_neg (by rw [hallocated]; decide)]
    · rw [shaded_append, swapPairs_append (by rw [length_shaded]; exact h.even), hxs, Device.fill,
        h.count, h.shade, hline]
      rfl
    · rw [List.length_append, Nat.add_mod, h.even, heven]
    · change (shaded _ _ _ _).length % 2 = 0
      rw [length_shaded, heven]
    · rw [List.length_append, ← h.count]
      rfl
    · have htotal := h.total
      rw [List.length_append, Device.fill]
      dsimp only
      omega
    · rw [ReadCall.waiting, hempty, hfetched, Nat.zero_add]
      exact length_shaded ..
    · rw [Device.fill]
      dsimp only
      omega
  · have hfetched : call.fetched dev = [] := if_neg hneeds
    refine ⟨dev, fetch_idle hneeds, ?_, rfl, ?_, ?_, rfl⟩
    · rwa [hfetched, List.append_nil]
    · rw [ReadCall.waiting, hfetched]
      rfl
    · rw [hfetched]
      rfl

/-- The transfer buffer is copied over when it fits. -/
theorem copyOver_reading (h : dev.Reading scan received out xs unread) (garbage : SaneByte)
    (hclear : dev.bytesInBuffer ≤ bytesAvailable dev.readBuffer → ∀ i < dev.bytesInBuffer,
      unread.length + scan.layout.offset ((scan.layout.rest xs).length + i) <
        dev.readBuffer.size) :
    ∃ xs' unread', (copyOver garbage dev).Reading scan received out xs' unread' ∧
      (copyOver garbage dev).bytesRemaining = dev.bytesRemaining ∧
      (copyOver garbage dev).eof = dev.eof ∧
      (dev.bytesInBuffer ≤ bytesAvailable dev.readBuffer →
        (copyOver garbage dev).bytesInBuffer = 0 ∧ xs'.length = xs.length + dev.bytesInBuffer) ∧
      (¬ dev.bytesInBuffer ≤ bytesAvailable dev.readBuffer →
        copyOver garbage dev = dev ∧ xs' = xs ∧ unread' = unread) := by
  rw [copyOver]
  by_cases hfits : dev.bytesInBuffer ≤ bytesAvailable dev.readBuffer
  · rw [if_pos hfits]
    split
    · rename_i hnone
      have hempty : dev.bytesInBuffer = 0 := by rw [Device.bytesInBuffer, hnone]
      exact ⟨xs, unread, h, rfl, rfl, fun _ => ⟨hempty, by omega⟩, fun hnot => absurd hfits hnot⟩
    · rename_i transfer hsome
      have hlen : dev.bytesInBuffer = transfer.length := by rw [Device.bytesInBuffer, hsome]
      have hpending := h.pending
      rw [hsome] at hpending
      have heven : transfer.length % 2 = 0 := hpending
      have hroom := hclear hfits
      rw [hlen, ← length_swapPairs transfer] at hroom
      obtain ⟨unread', hstreamed⟩ := h.streamed.foldl hroom
      have hcopy : copyTransfer dev.mode dev.threshold transfer garbage dev.readBuffer =
          (swapPairs transfer).foldl (Lexmark.add scan.mode scan.threshold) dev.readBuffer := by
        rw [copyTransfer, map_exchanged garbage transfer heven, h.mode, h.threshold]
      refine ⟨xs ++ swapPairs transfer, unread',
        ⟨h.mode, h.threshold, h.shade, hcopy ▸ hstreamed, ?_, h.even, rfl, h.count, h.total⟩, rfl,
        rfl, fun _ => ⟨rfl, ?_⟩, fun hnot => absurd hfits hnot⟩
      · rw [h.stream, hsome]
        exact (List.append_nil _).symm
      · rw [List.length_append, length_swapPairs, hlen]
  · rw [if_neg hfits]
    exact ⟨xs, unread, h, rfl, rfl, fun hfit => absurd hfit hfits, fun _ => ⟨rfl, rfl, rfl⟩⟩

theorem Device.Reading.column_eq (h : dev.Reading scan received out xs unread) :
    dev.column scan = (scan.layout.rest xs).length := by
  have hlen := h.length
  rw [Device.column, scan.layout.length_rest, h.count, hlen, Nat.add_sub_cancel]

/-- Adding bytes does not take any away, and a line that is completed can be read. -/
theorem unread_le {xs' unread' : List SaneByte} (h : scan.layout.image xs = out ++ unread)
    (h' : scan.layout.image xs' = out ++ unread') (hle : xs.length ≤ xs'.length) :
    unread.length ≤ unread'.length ∧
      (scan.layout.raw ≤ xs.length % scan.layout.raw + (xs'.length - xs.length) →
        0 < unread'.length) := by
  have hlen := congrArg List.length h
  have hlen' := congrArg List.length h'
  rw [List.length_append, scan.layout.length_image] at hlen hlen'
  constructor
  · have hdiv := Nat.mul_le_mul_right scan.layout.size
      (Nat.div_le_div_right (c := scan.layout.raw) hle)
    omega
  · intro hline
    have hmod := Nat.div_add_mod xs.length scan.layout.raw
    have hnext : xs.length / scan.layout.raw + 1 ≤ xs'.length / scan.layout.raw := by
      rw [Nat.le_div_iff_mul_le scan.layout.raw_pos, Nat.succ_mul, Nat.mul_comm]
      omega
    have hdiv := Nat.mul_le_mul_right scan.layout.size hnext
    have hpos := layout_size_pos scan
    rw [Nat.succ_mul] at hdiv
    omega

/-- What a call returns: bytes, or EOF when the whole image has been returned. -/
structure Delivered (scan : Scan) (received out : List SaneByte) (call : ReadCall)
    (r : ReadResult) : Prop where
  length : r.length = r.bytes.length
  ends : r.status = .good ∧ 0 < r.length ∧ r.length ≤ call.maxLength ∨
    r.status = .eof ∧ r.length = 0 ∧ received.length = scan.dataSize ∧ out = scan.image received

/-- Between calls: at the end of the image nothing waits. -/
def Device.Between (scan : Scan) (dev : Device) (received out : List SaneByte) : Prop :=
  ∃ xs unread, dev.Reading scan received out xs unread ∧
    (dev.eof = true → dev.bytesRemaining = 0 ∧ dev.bytesInBuffer = 0 ∧ unread = [])

/-- Nothing waits any more. -/
theorem Device.Reading.complete (h : dev.Reading scan received out xs [])
    (hremaining : dev.bytesRemaining = 0) (hbuffer : dev.bytesInBuffer = 0) :
    received.length = scan.dataSize ∧ out = scan.image received := by
  have htotal := h.total
  have himage := h.streamed.image
  have hpending : dev.transferBuffer.getD [] = [] := by
    rw [Device.bytesInBuffer_eq] at hbuffer
    exact List.eq_nil_of_length_eq_zero hbuffer
  refine ⟨by omega, ?_⟩
  rw [Scan.image, h.stream, hpending]
  rw [List.append_nil] at himage
  exact himage.symm.trans (congrArg _ (List.append_nil xs).symm)

/-- What stands in the read buffer when the frontend gets its bytes. -/
theorem copied_reading (h : dev.Reading scan received out xs unread) (hcall : call.Possible dev)
    (hfine : call.Fine scan dev) :
    ∃ dev₁ xs' unread', fetch call dev = .ok dev₁ ∧
      (copyOver call.garbage dev₁).Reading scan (received ++ call.fetched dev) out xs' unread' ∧
      (copyOver call.garbage dev₁).eof = dev.eof ∧
      (copyOver call.garbage dev₁).bytesRemaining + (call.fetched dev).length =
        dev.bytesRemaining ∧
      (unread' = [] → call.waiting dev = 0 ∧ dev.bytesRemaining = 0) ∧
      (¬ call.Fits dev → dev.readBuffer.occupied = unread'.length) ∧
      (call.Fits dev → (copyOver call.garbage dev₁).bytesInBuffer = 0) := by
  obtain ⟨dev₁, hfetch, h₁, hbuffer, hwaiting, hremaining, heof⟩ := fetch_reading h hcall hfine
  have hoccupied : dev.readBuffer.occupied = unread.length := h.streamed.filled.occupied_eq
  have hcolumn := h.column_eq
  have hfits : dev₁.bytesInBuffer ≤ bytesAvailable dev₁.readBuffer ↔ call.Fits dev := by
    rw [ReadCall.Fits, hwaiting, hbuffer]
  obtain ⟨xs', unread', h₂, hremaining₂, heof₂, hfit, hnofit⟩ :=
    copyOver_reading h₁ call.garbage (by
      intro hle i hi
      have hclear := hfine.clear (hfits.mp hle) i (hwaiting ▸ hi)
      rwa [hoccupied, hcolumn, ← hbuffer] at hclear)
  refine ⟨dev₁, xs', unread', hfetch, h₂, heof₂.trans heof, by omega, fun hnil => ?_,
    fun hnot => ?_, fun hyes => (hfit (hfits.mpr hyes)).1⟩
  · by_cases hyes : call.Fits dev
    · have hlen := (hfit (hfits.mpr hyes)).2
      obtain ⟨hgrow, hline⟩ := unread_le h.streamed.image h₂.streamed.image (by omega)
      rw [hnil] at hgrow hline
      rw [← scan.layout.length_rest, ← hcolumn, hlen, hwaiting, Nat.add_sub_cancel_left] at hline
      rcases hfine.line with hpos | ⟨-, hraw⟩ | hnone
      · rw [hoccupied] at hpos
        exact absurd (Nat.lt_of_lt_of_le hpos hgrow) (Nat.lt_irrefl 0)
      · exact absurd (hline hraw) (Nat.lt_irrefl 0)
      · exact hnone
    · obtain ⟨-, -, hsame⟩ := hnofit (fun hle => hyes (hfits.mp hle))
      rcases hfine.line with hpos | ⟨hfit', -⟩ | hnone
      · rw [hoccupied, ← hsame, hnil] at hpos
        exact absurd hpos (Nat.lt_irrefl 0)
      · exact absurd hfit' hyes
      · exact hnone
  · obtain ⟨-, -, hsame⟩ := hnofit (fun hle => hnot (hfits.mp hle))
    rw [hoccupied, hsame]

/-- A call loses nothing. -/
theorem saneRead_between (h : dev.Between scan received out) (hcall : call.Possible dev)
    (hfine : dev.eof = false → call.Fine scan dev) :
    Delivered scan received out call (saneRead call dev).1 ∧
      (saneRead call dev).2.Between scan
        (received ++ if dev.eof then [] else call.fetched dev)
        (out ++ (saneRead call dev).1.bytes) := by
  obtain ⟨xs, unread, hreading, hend⟩ := h
  rw [saneRead]
  cases heof : dev.eof with
  | true =>
    obtain ⟨hremaining, hbuffer, rfl⟩ := hend heof
    obtain ⟨hall, himage⟩ := hreading.complete hremaining hbuffer
    refine ⟨⟨rfl, .inr ⟨rfl, rfl, hall, himage⟩⟩, xs, [], ?_, fun _ => ⟨hremaining, hbuffer, rfl⟩⟩
    simpa using hreading
  | false =>
    have hfine := hfine heof
    obtain ⟨dev₁, xs', unread', hfetch, h₂, heof₂, hremaining, hnil, hnofit, hfit⟩ :=
      copied_reading hreading hcall hfine
    generalize hdev₂ : copyOver call.garbage dev₁ = dev₂ at h₂ heof₂ hremaining hfit
    obtain ⟨rb, hget, hfilled⟩ := getBytes_spec h₂.streamed.filled call.maxLength
    have himage : scan.layout.image xs' =
        (out ++ unread'.take call.maxLength) ++ unread'.drop call.maxLength := by
      rw [List.append_assoc, List.take_append_drop, h₂.streamed.image]
    have hbetween : Device.Between scan
        { dev₂ with
          readBuffer := rb
          eof := dev₂.eof || decide (dev₂.bytesRemaining = 0 ∧ rb.empty = true) }
        (received ++ call.fetched dev) (out ++ unread'.take call.maxLength) := by
      refine ⟨xs', unread'.drop call.maxLength, ⟨h₂.mode, h₂.threshold, h₂.shade,
        ⟨hfilled, himage⟩, h₂.stream, h₂.even, h₂.pending, h₂.count, h₂.total⟩, fun hset => ?_⟩
      rw [heof₂, heof, Bool.false_or, hfilled.empty] at hset
      obtain ⟨hzero, hempty⟩ := of_decide_eq_true hset
      have hdrained := of_decide_eq_true hempty
      refine ⟨hzero, ?_, hdrained⟩
      by_cases hyes : call.Fits dev
      · exact hfit hyes
      · have hkept := hfine.kept hyes (by omega)
        rw [hnofit hyes] at hkept
        have hall := List.drop_eq_nil_iff.mp hdrained
        omega
    have hrun : readScanData call dev = ((unread'.take call.maxLength).length,
        unread'.take call.maxLength, { dev₂ with
          readBuffer := rb
          eof := dev₂.eof || decide (dev₂.bytesRemaining = 0 ∧ rb.empty = true) }) := by
      rw [readScanData, hfetch]
      simp only [hdev₂, hget]
    simp only [Bool.false_eq_true, if_false, hrun]
    have hroom := hcall.room
    split
    · rename_i hzero
      have hempty : unread' = [] := by
        rw [List.length_take] at hzero
        exact List.eq_nil_of_length_eq_zero (by omega)
      obtain ⟨hwaiting, hleft⟩ := hnil hempty
      have hfits : call.Fits dev := by
        rw [ReadCall.Fits, hwaiting]
        exact Nat.zero_le _
      have hfetched : call.fetched dev = [] := by
        rw [ReadCall.waiting] at hwaiting
        exact List.eq_nil_of_length_eq_zero (by omega)
      rw [hempty, hfetched, List.append_nil] at h₂
      obtain ⟨hall, hout⟩ := h₂.complete (by omega) (hfit hfits)
      refine ⟨⟨?_, .inr ⟨rfl, rfl, hall, hout⟩⟩, hbetween⟩
      exact hzero.symm
    · rename_i hsome
      refine ⟨⟨rfl, .inl ⟨rfl, Nat.pos_of_ne_zero hsome, ?_⟩⟩, hbetween⟩
      exact List.length_take_le ..

/-! ### Runs -/

/-- A scan with the bytes that have come from the scanner and those the frontend has got. -/
structure Progress where
  dev : Device
  received : List SaneByte
  out : List SaneByte

def Scan.begin (scan : Scan) (fresh : Nat → SaneByte) : Progress := ⟨scan.start fresh, [], []⟩

/-- A call of `sane_read`. -/
def Progress.exec (call : ReadCall) (p : Progress) : Progress where
  dev := (saneRead call p.dev).2
  received := p.received ++ if p.dev.eof then [] else call.fetched p.dev
  out := p.out ++ (saneRead call p.dev).1.bytes

theorem start_between (hline : scan.bytesPerLine ≤ 3 * MAX_XFER_SIZE) (fresh : Nat → SaneByte) :
    (scan.start fresh).Between scan [] [] := by
  have hpos := layout_size_pos scan
  have hlines : 0 < 3 * MAX_XFER_SIZE / scan.bytesPerLine := by
    rw [scan.bytesPerLine_eq] at hline ⊢
    exact Nat.div_pos hline hpos
  have hsize : (readBufferInit scan.bytesPerLine scan.pixels fresh).size =
      (3 * MAX_XFER_SIZE / scan.bytesPerLine - 1 + 1) * scan.layout.size := by
    rw [Nat.sub_add_cancel hlines, ← scan.bytesPerLine_eq, Nat.mul_comm]
    rfl
  have hrest : scan.layout.rest [] = [] := List.drop_nil
  have hzero : 0 < (readBufferInit scan.bytesPerLine scan.pixels fresh).size := by
    rw [hsize]
    exact Nat.mul_pos (Nat.succ_pos _) hpos
  refine ⟨[], [], ⟨rfl, rfl, rfl, ⟨?_, ?_⟩, rfl, rfl, rfl, rfl, rfl⟩, fun h => nomatch h⟩
  · rw [hrest]
    refine ⟨⟨hzero, scan.layout.raw_pos, Nat.zero_le _, rfl, ?_⟩, ?_, ⟨_, ?_, hsize⟩, ⟨0, ?_⟩, rfl,
      scan.bytesPerLine_eq, ?_⟩
    · exact fun o _ hwritten => absurd hwritten (scan.layout.written_zero o)
    · exact (Nat.zero_mod _).symm
    · rw [← scan.bytesPerLine_eq]
      rfl
    · exact (Nat.zero_mul _).symm
    · exact At_init scan.mode scan.bytesPerLine_eq
  · rw [List.append_nil, Layout.image, List.length_nil, Nat.zero_div]
    rfl

/-- In every run whose calls meet the condition the frontend gets the bytes of the image one
    after the other, and EOF is returned when all of them have been returned. -/
theorem lexmark_scan (scan : Scan) (hline : scan.bytesPerLine ≤ 3 * MAX_XFER_SIZE)
    (fresh : Nat → SaneByte) (calls : List ReadCall) (p : Progress)
    (hrun : Run (fun p call p' => call.Possible p.dev ∧
        (p.dev.eof = false → call.Fine scan p.dev) ∧ p.exec call = p') (scan.begin fresh) calls p) :
    p.out <+: scan.image p.received ∧
      ∀ call, call.Possible p.dev → (p.dev.eof = false → call.Fine scan p.dev) →
        Delivered scan p.received p.out call (saneRead call p.dev).1 := by
  have hbetween : p.dev.Between scan p.received p.out := by
    refine hrun.invariant (I := fun p => p.dev.Between scan p.received p.out)
      (start_between hline fresh) ?_
    rintro p call _ hp ⟨hcall, hfine, rfl⟩
    exact (saneRead_between hp hcall hfine).2
  refine ⟨?_, fun call hcall hfine => (saneRead_between hbetween hcall hfine).1⟩
  obtain ⟨xs, unread, hreading, -⟩ := hbetween
  have himage := hreading.streamed.image
  have hmore := scan.layout.image_prefix xs (swapPairs (p.dev.transferBuffer.getD []))
  rw [← hreading.stream, himage] at hmore
  exact (List.prefix_append ..).trans hmore

/-- Two lines of two gray pixels. -/
def twoLines : Scan where
  mode := .gray
  threshold := 0
  shade _ x := x
  pixels := 2
  lines := 2

/-- The scanner gives some bytes. -/
def giving (transfer : List SaneByte) : ReadCall where
  maxLength := 3
  poll := .good
  allocated := true
  transfer := transfer
  garbage := 0

/-- Two lines come with one transfer and are returned in order, three bytes and one; then the
    image has ended. -/
theorem lexmark_scan_twoLines :
    let p := ((twoLines.begin fun _ => 0).exec (giving [1, 2, 3, 4])).exec (giving [])
    p.out = [2, 1, 4, 3] ∧ p.out <+: twoLines.image p.received ∧
      (saneRead (giving []) p.dev).1 = ⟨.eof, 0, []⟩ ∧
      Delivered twoLines p.received p.out (giving []) (saneRead (giving []) p.dev).1 := by
  intro p
  let first := (twoLines.begin fun _ => 0).exec (giving [1, 2, 3, 4])
  have hpossible : (giving [1, 2, 3, 4]).Possible (twoLines.begin fun _ => 0).dev :=
    ⟨by decide, fun _ => by decide⟩
  have hfine : (giving [1, 2, 3, 4]).Fine twoLines (twoLines.begin fun _ => 0).dev := by
    refine ⟨fun _ => ⟨rfl, rfl⟩, fun _ => rfl, ?_, .inr (.inl ?_), ?_⟩
    · decide +kernel
    · decide +kernel
    · intro hnot
      exact absurd (show (giving [1, 2, 3, 4]).Fits (twoLines.begin fun _ => 0).dev by
        decide +kernel) hnot
  have hidle : ¬ first.dev.needs := by decide +kernel
  have hpossible' : (giving []).Possible first.dev :=
    ⟨by decide, fun hneeds => absurd hneeds hidle⟩
  have hfine' : (giving []).Fine twoLines first.dev := by
    refine ⟨fun hneeds => absurd hneeds hidle, fun hneeds => absurd hneeds hidle, ?_, .inl ?_, ?_⟩
    · decide +kernel
    · decide +kernel
    · intro hnot
      exact absurd (show (giving []).Fits first.dev by decide +kernel) hnot
  have hended : ¬ p.dev.needs := by decide +kernel
  have heof : p.dev.eof = true := by decide +kernel
  obtain ⟨hfront, hdelivered⟩ := lexmark_scan twoLines (by decide) (fun _ => 0)
    [giving [1, 2, 3, 4], giving []] p
    (.snoc (.snoc .nil ⟨hpossible, fun _ => hfine, rfl⟩) ⟨hpossible', fun _ => hfine', rfl⟩)
  refine ⟨by decide +kernel, hfront, by decide +kernel, hdelivered (giving []) ?_ ?_⟩
  · exact ⟨by decide, fun hneeds => absurd hneeds hended⟩
  · exact fun hmore => absurd (heof.symm.trans hmore) (by decide)

/-- A failure of the wait for data is returned as a number of bytes, and a transfer that does
    not complete a line is followed by EOF. -/
theorem lexmark_scan_fails :
    (¬ ∀ (scan : Scan) (fresh : Nat → SaneByte) (calls : List ReadCall) (p : Progress),
      Run (fun p call p' => call.Possible p.dev ∧ p.exec call = p') (scan.begin fresh) calls p →
      ∀ call, call.Possible p.dev →
        Delivered scan p.received p.out call (saneRead call p.dev).1) ∧
      (saneRead { giving [1, 2] with poll := .ioError } (twoLines.start fun _ => 0)).1 =
        ⟨.good, 9, []⟩ ∧
      (saneRead (giving [1]) (twoLines.start fun _ => 0)).1 = ⟨.eof, 0, []⟩ := by
  have hcounted : (saneRead { giving [1, 2] with poll := .ioError }
      (twoLines.start fun _ => 0)).1 = ⟨.good, 9, []⟩ := by decide +kernel
  refine ⟨fun h => ?_, hcounted, by decide +kernel⟩
  have hdelivered := h twoLines (fun _ => 0) [] _ .nil { giving [1, 2] with poll := .ioError }
    ⟨by decide, fun _ => by decide⟩
  have hlength := hdelivered.length
  rw [show (saneRead { giving [1, 2] with poll := .ioError }
    (twoLines.begin fun _ => 0).dev).1 = ⟨.good, 9, []⟩ from hcounted] at hlength
  cases hlength

end SaneBackends.Lexmark
