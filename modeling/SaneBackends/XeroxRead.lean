import SaneBackends.RingMemory
import SaneBackends.SaneTypes

/-!
# Reading from a Xerox or Samsung scanner

`sane_read` of `backend/xerox_mfp.c` with the functions it calls, and `dataroom` of
`backend/xerox_mfp.h`.  The scanner announces the image in blocks of whole lines.  A block
comes in transfers, which go into a ring buffer; from there the lines are cut, and their
colours mixed, for the caller.
-/

namespace SaneBackends.XeroxMfp

open RingMemory

def DATASIZE : Nat := 0x10000
def PADDING_SIZE : Nat := 16
def USB_BLOCK_SIZE : Nat := 512

/-- A room with `USB_BLOCK_MASK`. -/
def usbBlocks (room : Nat) : Nat := room / USB_BLOCK_SIZE * USB_BLOCK_SIZE

inductive Composition where
  | lineart | halftone | gray8 | rgb24
deriving DecidableEq, Repr

/-- What is fixed for a scan: the composition, whether colours come one after the other, and the
    parameters as `sane_start` leaves them. -/
structure ScanSetup where
  composition : Composition
  lineOrder : Bool
  pixelsPerLine : Nat
  lines : Nat

namespace ScanSetup

/-- `para.bytes_per_line`. -/
def paraBytesPerLine (setup : ScanSetup) : Nat :=
  match setup.composition with
  | .rgb24 => setup.pixelsPerLine * 3
  | .gray8 => setup.pixelsPerLine
  | .lineart | .halftone => (setup.pixelsPerLine + 7) / 8

/-- The bytes of a line of a block. -/
def bytesPerLine (setup : ScanSetup) (horizontal : Nat) : Nat :=
  match setup.composition with
  | .rgb24 => horizontal * 3
  | .gray8 | .lineart | .halftone => horizontal

def totalImgSize (setup : ScanSetup) : Nat := setup.paraBytesPerLine * setup.lines

/-- Whether the bands of a line are mixed. -/
def mixes (setup : ScanSetup) : Bool := setup.composition == .rgb24 && setup.lineOrder

end ScanSetup

/-- A block as it is announced, with a length that is an `int`, and what the scanner then sends:
    at least the bytes it has announced. -/
structure Block where
  vertical : Nat
  horizontal : Nat
  blocklen : Nat
  blocklen_lt : blocklen < 2 ^ 31
  final : Bool
  data : List SaneByte
  enough : blocklen ≤ data.length

/-- The fields of `struct device` that change.  `source` is what the scanner has not sent yet of
    the block, `blocks` what it is going to announce. -/
structure Device where
  scanning : Bool
  reading : Bool
  data : Nat → SaneByte
  datalen : Nat
  dataoff : Nat
  dataindex : Nat
  blocklen : Nat
  vertical : Nat
  horizontal : Nat
  bytesPerLine : Nat
  finalBlock : Bool
  ulines : Nat
  yOff : Nat
  totalOutSize : Nat
  source : List SaneByte
  blocks : List Block

/-- `DATATAIL`. -/
def Device.tail (dev : Device) : Nat := (dev.dataoff + dev.datalen) % DATASIZE

def dataroom (dev : Device) : Nat :=
  if dev.tail < dev.dataoff then dev.dataoff - dev.tail
  else if dev.datalen = DATASIZE then 0
  else DATASIZE - dev.tail

variable (setup : ScanSetup)

/-- `dev_acquire`, when the scanner announces `b`.  A line that is too long ends the scan, but
    the caller takes the status for success. -/
def devAcquire (dev : Device) (b : Block) (blocks : List Block) : Device :=
  let dev := { dev with
    vertical := b.vertical, horizontal := b.horizontal, blocklen := b.blocklen
    finalBlock := b.final, bytesPerLine := setup.bytesPerLine b.horizontal
    source := b.data, blocks := blocks }
  if DATASIZE < dev.bytesPerLine then { dev with scanning := false }
  else { dev with reading := false, dataindex := 0, datalen := 0, dataoff := 0 }

/-- How the inner loop of `sane_read` ends: behind the loop; waiting for a transfer; with a
    transfer behind the end of the buffer; or with more bytes than the block has. -/
inductive Fill where
  | done (dev : Device) (ts : List Nat)
  | waiting
  | fault
  | overrun (dev : Device)

/-- A transfer of so many bytes. -/
def receive (dev : Device) (n : Nat) : Device :=
  let bytes := dev.source.take n
  { dev with
    data := put dev.data dev.tail bytes, datalen := dev.datalen + bytes.length
    blocklen := dev.blocklen - bytes.length, source := dev.source.drop n }

/-- The inner loop, with the lengths that the transport is going to return. -/
def fill : Device → List Nat → Fill
  | dev, ts =>
    let room := usbBlocks (dataroom dev)
    if room = 0 ∨ dev.blocklen = 0 then .done dev ts
    else
      match ts with
      | [] => .waiting
      | t :: ts =>
        let n := min t (min room dev.source.length)
        if DATASIZE < dev.tail + n ∨ DATASIZE < dev.datalen + n then .fault
        else if dev.blocklen < n then .overrun (receive dev n)
        else fill (receive dev n) ts

/-- A loop over `n` bytes from byte `j` on.  Those that are wanted go to the caller, who has room
    for `m`. -/
def copyLoop (byte : Nat → SaneByte) (wanted stop : Nat → Bool) :
    Nat → Nat → Nat → List SaneByte × Nat
  | 0, j, _ => ([], j)
  | n + 1, j, m =>
    if m = 0 || stop j then ([], j)
    else if wanted j then
      let r := copyLoop byte wanted stop n (j + 1) (m - 1)
      (byte j :: r.1, r.2)
    else copyLoop byte wanted stop n (j + 1) m

/-- What has been copied, the index behind it, and how much of the buffer it frees. -/
structure Copied where
  out : List SaneByte
  dataindex : Nat
  clrlen : Nat

namespace Device

/-- Byte `j` of the buffer. -/
def plainByte (dev : Device) (j : Nat) : SaneByte := dev.data ((dev.dataoff + j) % DATASIZE)

/-- Whether byte `j` lies within the image. -/
def plainWanted (dev : Device) (j : Nat) : Bool :=
  let k := dev.dataindex + j
  k % dev.bytesPerLine < setup.paraBytesPerLine && k / dev.bytesPerLine + dev.yOff < setup.lines

/-- Byte `j` when the bands are mixed; the buffer begins with a whole line. -/
def mixByte (dev : Device) (j : Nat) : SaneByte :=
  let k := dev.dataindex + j
  let band := k % 3 * dev.horizontal
  let x := k % dev.bytesPerLine / 3
  let y := k / dev.bytesPerLine - dev.dataindex / dev.bytesPerLine
  dev.data ((dev.dataoff + band + x + y * dev.bytesPerLine) % DATASIZE)

def mixWanted (dev : Device) (j : Nat) : Bool :=
  let k := dev.dataindex + j
  let yOff := dev.dataindex / dev.bytesPerLine
  let y := k / dev.bytesPerLine - yOff
  k % dev.bytesPerLine / 3 < setup.pixelsPerLine && y + yOff + dev.yOff < setup.lines

/-- The bytes of whole lines behind the index. -/
def havelen (dev : Device) : Nat :=
  dev.datalen / dev.bytesPerLine * dev.bytesPerLine - dev.dataindex % dev.bytesPerLine

end Device

def copyPlainTrim (dev : Device) (maxlen : Nat) : Copied :=
  let r := copyLoop dev.plainByte (dev.plainWanted setup)
    (fun j => dev.vertical ≤ (dev.dataindex + j) / dev.bytesPerLine) dev.datalen 0 maxlen
  ⟨r.1, dev.dataindex + r.2, r.2⟩

def copyMixBandsTrim (dev : Device) (maxlen : Nat) : Copied :=
  let r := copyLoop dev.mixByte (dev.mixWanted setup) (fun _ => false) dev.havelen 0 maxlen
  let k := dev.dataindex + r.2
  ⟨r.1, k, (k / dev.bytesPerLine - dev.dataindex / dev.bytesPerLine) * dev.bytesPerLine⟩

def copyTrim (dev : Device) (maxlen : Nat) : Copied :=
  if setup.mixes then copyMixBandsTrim setup dev maxlen else copyPlainTrim setup dev maxlen

/-- What is done with the buffer after copying.  Behind the last line it is emptied. -/
def Device.clear (dev : Device) (r : Copied) : Device :=
  let dev := { dev with
    dataindex := r.dataindex, datalen := dev.datalen - r.clrlen
    dataoff := (dev.dataoff + r.clrlen) % DATASIZE
    totalOutSize := dev.totalOutSize + r.out.length }
  if setup.lines ≤ dev.dataindex / dev.bytesPerLine + dev.yOff then
    { dev with datalen := 0, dataoff := 0 }
  else dev

/-- How a call of `sane_read` ends.  It may be left running in its outer loop or waiting for a
    transfer; a fault is a division by zero or an access outside the buffer. -/
inductive ReadResult where
  | done (status : SaneStatus) (out : List SaneByte) (dev : Device)
  | running
  | waiting
  | fault

/-- The outer loop of `sane_read`, at most `fuel` times. -/
def readLoop : Nat → Device → List Nat → Nat → List SaneByte → ReadResult
  | 0, _, _, _, _ => .running
  | fuel + 1, dev, ts, maxlen, out =>
    match fill dev ts with
    | .waiting => .waiting
    | .fault => .fault
    | .overrun dev => .done .ioError out { dev with scanning := false }
    | .done dev ts =>
      if dev.bytesPerLine = 0 then .fault
      else
        let r := copyTrim setup dev maxlen
        let dev := dev.clear setup r
        if r.clrlen = 0 ∨ maxlen ≤ r.out.length ∨ dev.blocklen = 0 then
          .done .good (out ++ r.out) dev
        else readLoop fuel dev ts (maxlen - r.out.length) (out ++ r.out)

/-- The command `READ_IMAGE`, once for a block. -/
def readImage (dev : Device) : Device :=
  if dev.reading then dev
  else { dev with
    reading := true, ulines := dev.ulines + dev.vertical, yOff := dev.ulines }

/-- The bytes in the buffer and those to come; each turn of the outer loop lowers their number. -/
def Device.load (dev : Device) : Nat := dev.blocklen + dev.datalen

/-- `sane_read`, with the lengths that the transport is going to return. -/
def saneRead (dev : Device) (maxlen : Nat) (ts : List Nat) : ReadResult :=
  if !dev.scanning then .done .eof [] dev
  else if dev.blocklen = 0 ∧ dev.datalen ≤ PADDING_SIZE then
    if dev.finalBlock then
      if dev.totalOutSize < setup.totalImgSize then
        let n := min (setup.totalImgSize - dev.totalOutSize) maxlen
        .done .good (List.replicate n 0xff) { dev with totalOutSize := dev.totalOutSize + n }
      else .done .eof [] { dev with scanning := false }
    else
      match dev.blocks with
      | [] => .done .ioError [] dev
      | b :: blocks =>
        let dev := readImage (devAcquire setup dev b blocks)
        readLoop setup (dev.load + 1) dev ts maxlen []
  else
    let dev := readImage dev
    readLoop setup (dev.load + 1) dev ts maxlen []

/-- The state after `sane_start`, which has acquired the first block. -/
def saneStart (data : Nat → SaneByte) (b : Block) (blocks : List Block) : Device :=
  devAcquire setup
    { scanning := true, reading := false, data := data, datalen := 0, dataoff := 0
      dataindex := 0, blocklen := 0, vertical := 0, horizontal := 0, bytesPerLine := 0
      finalBlock := false, ulines := 0, yOff := 0, totalOutSize := 0, source := []
      blocks := [] } b blocks

/-! ### The ring buffer -/

/-- The buffer is used within its size, and the scanner has what is missing of the block. -/
structure Device.Ok (dev : Device) : Prop where
  dataoff_lt : dev.dataoff < DATASIZE
  datalen_le : dev.datalen ≤ DATASIZE
  enough : dev.blocklen ≤ dev.source.length

/-- The bytes in the buffer. -/
def Device.content (dev : Device) : List SaneByte := ring dev.data DATASIZE dev.dataoff dev.datalen

variable {setup} {dev dev' : Device} {ts ts' : List Nat} {maxlen : Nat}

theorem tail_cases (h : dev.Ok) : dev.tail = if dev.dataoff + dev.datalen < DATASIZE then
    dev.dataoff + dev.datalen else dev.dataoff + dev.datalen - DATASIZE := by
  have hoff := h.dataoff_lt
  have hlen := h.datalen_le
  exact mod_cases (by omega)

/-- The room is contiguous and free. -/
theorem dataroom_fits (h : dev.Ok) :
    dev.tail + dataroom dev ≤ DATASIZE ∧ dev.datalen + dataroom dev ≤ DATASIZE := by
  have hoff := h.dataoff_lt
  have hlen := h.datalen_le
  have htail := tail_cases h
  rw [dataroom]
  split_ifs at htail ⊢ <;> omega

theorem usbBlocks_le (room : Nat) : usbBlocks room ≤ room := Nat.div_mul_le_self _ _

theorem usbBlocks_eq_zero {room : Nat} : usbBlocks room = 0 ↔ room < USB_BLOCK_SIZE := by
  rw [usbBlocks, USB_BLOCK_SIZE]
  omega

/-- What transfers do to the buffer. -/
structure Filled (dev dev' : Device) : Prop where
  same : dev' = { dev with
    data := dev'.data, datalen := dev'.datalen, blocklen := dev'.blocklen, source := dev'.source }
  ok : dev'.Ok
  stream : dev'.content ++ dev'.source = dev.content ++ dev.source
  load : dev'.load = dev.load
  blocklen_le : dev'.blocklen ≤ dev.blocklen
  exact : dev.blocklen = dev.source.length → dev'.blocklen = dev'.source.length

theorem Filled.refl (h : dev.Ok) : Filled dev dev := ⟨rfl, h, rfl, rfl, le_rfl, id⟩

theorem Filled.trans {dev'' : Device} (h : Filled dev dev') (h' : Filled dev' dev'') :
    Filled dev dev'' where
  same := by rw [h'.same, h.same]
  ok := h'.ok
  stream := h'.stream.trans h.stream
  load := h'.load.trans h.load
  blocklen_le := h'.blocklen_le.trans h.blocklen_le
  exact := fun he => h'.exact (h.exact he)

theorem filled_receive (h : dev.Ok) {n : Nat} (hroom : n ≤ dataroom dev)
    (hblock : n ≤ dev.blocklen) : Filled dev (receive dev n) := by
  obtain ⟨htail, hlen⟩ := dataroom_fits h
  have hsource := h.enough
  have hbytes : (dev.source.take n).length = n := List.length_take_of_le (by omega)
  have hring := @ring_put _ dev.data _ _ _ (dev.source.take n) h.dataoff_lt
    (by rw [hbytes]; omega) (show (dev.dataoff + dev.datalen) % DATASIZE + _ ≤ _ by
      rw [hbytes]
      exact (Nat.add_le_add_left hroom _).trans htail)
  refine ⟨rfl, ⟨h.dataoff_lt, ?_, ?_⟩, ?_, ?_, Nat.sub_le _ _, fun hexact => ?_⟩
  · simp only [receive, hbytes]
    omega
  · simp only [receive, hbytes, List.length_drop]
    omega
  · simp only [Device.content, receive]
    rw [Device.tail, hring, List.append_assoc, List.take_append_drop]
  · simp only [Device.load, receive, hbytes]
    omega
  · simp only [receive, hbytes, List.length_drop]
    omega

/-- While a block comes in whole USB blocks, so many fit in front of the end of the buffer. -/
def Device.Aligned (dev : Device) : Prop := dev.blocklen = 0 ∨ USB_BLOCK_SIZE ∣ dev.tail

theorem aligned_receive (hexact : dev.blocklen = dev.source.length) (h : dev.Aligned) {n t room : Nat}
    (hn : min t (min (usbBlocks room) dev.source.length) = n) (ht : USB_BLOCK_SIZE ∣ t) :
    (receive dev n).Aligned := by
  rcases h with h0 | htail
  · left
    simp only [receive, h0, Nat.zero_sub]
  · by_cases hlast : n = dev.source.length
    · left
      simp only [receive, hlast, List.take_length, hexact, Nat.sub_self]
    · right
      have hroom : USB_BLOCK_SIZE ∣ usbBlocks room := Nat.dvd_mul_left _ _
      have hdvd : USB_BLOCK_SIZE ∣ n := by
        rcases Nat.le_total t (min (usbBlocks room) dev.source.length) with hle | hle
        · rwa [← hn, Nat.min_eq_left hle]
        · rcases Nat.le_total (usbBlocks room) dev.source.length with hle' | hle'
          · rwa [← hn, Nat.min_eq_right hle, Nat.min_eq_left hle']
          · exact absurd (by rw [← hn, Nat.min_eq_right hle, Nat.min_eq_right hle']) hlast
      have hlen : (dev.source.take n).length = n := List.length_take_of_le (by omega)
      simp only [Device.tail, receive, hlen, USB_BLOCK_SIZE, DATASIZE] at htail hdvd ⊢
      omega

/-- How the inner loop ends.  A transfer that is not empty brings at least one byte. -/
theorem fill_cases (h : dev.Ok) (ts : List Nat) :
    (fill dev ts = .waiting ∧ ts.countP (0 < ·) < dev.blocklen) ∨
    (∃ dev' n, fill dev ts = .overrun (receive dev' n) ∧ Filled dev dev' ∧
      dev'.blocklen < n ∧ n ≤ dataroom dev' ∧ n ≤ dev'.source.length) ∨
    ∃ dev' ts', fill dev ts = .done dev' ts' ∧ Filled dev dev' ∧ ts' <:+ ts ∧
      (dataroom dev' < USB_BLOCK_SIZE ∨ dev'.blocklen = 0) ∧
      ts.countP (0 < ·) + dev'.blocklen ≤ ts'.countP (0 < ·) + dev.blocklen ∧
      (dev.blocklen = dev.source.length → (∀ t ∈ ts, USB_BLOCK_SIZE ∣ t) → dev.Aligned →
        dev'.Aligned) := by
  induction ts generalizing dev with
  | nil =>
    by_cases hstop : usbBlocks (dataroom dev) = 0 ∨ dev.blocklen = 0
    · right; right
      refine ⟨dev, [], ?_, .refl h, List.suffix_rfl, ?_, le_rfl, fun _ _ => id⟩
      · rw [fill, if_pos hstop]
      · rwa [← usbBlocks_eq_zero]
    · left
      rw [fill, if_neg hstop]
      refine ⟨rfl, ?_⟩
      rw [List.countP_nil]
      omega
  | cons t ts ih =>
    by_cases hstop : usbBlocks (dataroom dev) = 0 ∨ dev.blocklen = 0
    · right; right
      refine ⟨dev, t :: ts, ?_, .refl h, List.suffix_rfl, ?_, le_rfl, fun _ _ => id⟩
      · rw [fill, if_pos hstop]
      · rwa [← usbBlocks_eq_zero]
    · obtain ⟨htail, hlen⟩ := dataroom_fits h
      have hblocks := usbBlocks_le (dataroom dev)
      have hsource := h.enough
      generalize hn : min t (min (usbBlocks (dataroom dev)) dev.source.length) = n
      have hfits : ¬ (DATASIZE < dev.tail + n ∨ DATASIZE < dev.datalen + n) := by omega
      by_cases hover : dev.blocklen < n
      · right; left
        refine ⟨dev, n, ?_, .refl h, hover, by omega, by omega⟩
        rw [fill, if_neg hstop]
        simp only [hn, if_neg hfits, if_pos hover]
      · have hfilled := filled_receive h (n := n) (by omega) (by omega)
        have hrun : fill dev (t :: ts) = fill (receive dev n) ts := by
          rw [fill, if_neg hstop]
          simp only [hn, if_neg hfits, if_neg hover]
        have hblocklen : (receive dev n).blocklen = dev.blocklen - n := by
          simp only [receive, List.length_take]
          omega
        have hcount : (t :: ts).countP (0 < ·) ≤ ts.countP (0 < ·) + n := by
          rw [List.countP_cons]
          split
          · rename_i hpos
            have := of_decide_eq_true hpos
            omega
          · omega
        rw [hrun]
        rcases ih hfilled.ok with ⟨hwait, hless⟩ | ⟨dev', m, hend, hfilled', hover', hroom'⟩ |
          ⟨dev', ts', hend, hfilled', hsuffix, hstop', hless, haligned⟩
        · left
          exact ⟨hwait, by omega⟩
        · right; left
          exact ⟨dev', m, hend, hfilled.trans hfilled', hover', hroom'⟩
        · right; right
          exact ⟨dev', ts', hend, hfilled.trans hfilled',
            hsuffix.trans (List.suffix_cons t ts), hstop', by omega, fun hexact hts hdev =>
            haligned (hfilled.exact hexact) (fun t' ht' => hts t' (List.mem_cons_of_mem _ ht'))
              (aligned_receive hexact hdev hn (hts t List.mem_cons_self))⟩

/-! ### Copying -/

/-- The bytes that are wanted of `i` bytes from `j` on. -/
def picked (byte : Nat → SaneByte) (wanted : Nat → Bool) (j i : Nat) : List SaneByte :=
  (List.range' j i).filterMap fun j => if wanted j then some (byte j) else none

theorem picked_succ (byte : Nat → SaneByte) (wanted : Nat → Bool) (j i : Nat) :
    picked byte wanted j (i + 1) = if wanted j then byte j :: picked byte wanted (j + 1) i
      else picked byte wanted (j + 1) i := by
  rw [picked, List.range'_succ, List.filterMap_cons]
  cases wanted j <;> rfl

/-- The loop goes on until it has seen all bytes, or the caller has no more room, or it is
    stopped. -/
theorem copyLoop_spec (byte : Nat → SaneByte) (wanted stop : Nat → Bool) (n j m : Nat) :
    ∃ i ≤ n, copyLoop byte wanted stop n j m = (picked byte wanted j i, j + i) ∧
      (picked byte wanted j i).length ≤ m ∧ (∀ d < i, stop (j + d) = false) ∧
      (i = n ∨ (picked byte wanted j i).length = m ∨ stop (j + i) = true) := by
  induction n generalizing j m with
  | zero => exact ⟨0, le_rfl, rfl, Nat.zero_le m, fun d hd => absurd hd (Nat.not_lt_zero d), .inl rfl⟩
  | succ n ih =>
    by_cases hend : (decide (m = 0) || stop j) = true
    · refine ⟨0, Nat.zero_le _, ?_, Nat.zero_le m, fun d hd => absurd hd (Nat.not_lt_zero d), ?_⟩
      · rw [copyLoop, if_pos hend]
        rfl
      · right
        rcases Bool.or_eq_true_iff.mp hend with hm | hs
        · exact .inl (of_decide_eq_true hm).symm
        · exact .inr hs
    · have hm : ¬ m = 0 := fun h => hend (by rw [h]; rfl)
      have hs : stop j = false := by
        rw [Bool.or_eq_true_iff, not_or] at hend
        exact Bool.eq_false_iff.mpr hend.2
      have hfirst : ∀ i, (∀ d < i, stop (j + 1 + d) = false) →
          ∀ d < i + 1, stop (j + d) = false := by
        intro i hall d hd
        rcases Nat.eq_zero_or_pos d with rfl | hpos
        · exact hs
        · have := hall (d - 1) (by omega)
          rwa [show j + 1 + (d - 1) = j + d by omega] at this
      have hplace : ∀ i, j + 1 + i = j + (i + 1) := by omega
      cases hw : wanted j with
      | true =>
        obtain ⟨i, hi, hrun, hlen, hall, hstop⟩ := ih (j + 1) (m - 1)
        have hpicked : picked byte wanted j (i + 1) = byte j :: picked byte wanted (j + 1) i := by
          rw [picked_succ, if_pos hw]
        refine ⟨i + 1, by omega, ?_, ?_, hfirst i hall, ?_⟩
        · rw [copyLoop, if_neg hend, if_pos hw, hrun, hpicked, hplace i]
        · rw [hpicked, List.length_cons]
          omega
        · rw [hpicked, List.length_cons, ← hplace i]
          exact hstop.imp (fun h => by omega) (Or.imp_left fun h => by omega)
      | false =>
        obtain ⟨i, hi, hrun, hlen, hall, hstop⟩ := ih (j + 1) m
        have hpicked : picked byte wanted j (i + 1) = picked byte wanted (j + 1) i := by
          rw [picked_succ, if_neg (by rw [hw]; decide)]
        refine ⟨i + 1, by omega, ?_, ?_, hfirst i hall, ?_⟩
        · rw [copyLoop, if_neg hend, if_neg (by rw [hw]; decide), hrun, hpicked, hplace i]
        · rwa [hpicked]
        · rw [hpicked, ← hplace i]
          exact hstop.imp_left fun h => by omega

theorem copyPlainTrim_eq (setup : ScanSetup) (dev : Device) (maxlen : Nat) : ∃ i ≤ dev.datalen,
    copyPlainTrim setup dev maxlen
      = ⟨picked dev.plainByte (dev.plainWanted setup) 0 i, dev.dataindex + i, i⟩ ∧
    (picked dev.plainByte (dev.plainWanted setup) 0 i).length ≤ maxlen ∧
    (∀ d < i, (dev.dataindex + d) / dev.bytesPerLine < dev.vertical) ∧
    (i = dev.datalen ∨ (picked dev.plainByte (dev.plainWanted setup) 0 i).length = maxlen ∨
      dev.vertical ≤ (dev.dataindex + i) / dev.bytesPerLine) := by
  obtain ⟨i, hi, hrun, hlen, hall, hend⟩ := copyLoop_spec dev.plainByte (dev.plainWanted setup)
    (fun j => dev.vertical ≤ (dev.dataindex + j) / dev.bytesPerLine) dev.datalen 0 maxlen
  simp only [Nat.zero_add, decide_eq_false_iff_not, Nat.not_le, decide_eq_true_eq]
    at hrun hall hend
  refine ⟨i, hi, ?_, hlen, hall, hend⟩
  rw [copyPlainTrim, hrun]

theorem copyMixBandsTrim_eq (setup : ScanSetup) (dev : Device) (maxlen : Nat) :
    ∃ i ≤ dev.havelen, copyMixBandsTrim setup dev maxlen
      = ⟨picked dev.mixByte (dev.mixWanted setup) 0 i, dev.dataindex + i,
        ((dev.dataindex + i) / dev.bytesPerLine - dev.dataindex / dev.bytesPerLine)
          * dev.bytesPerLine⟩ ∧
    (picked dev.mixByte (dev.mixWanted setup) 0 i).length ≤ maxlen ∧
    (i = dev.havelen ∨ (picked dev.mixByte (dev.mixWanted setup) 0 i).length = maxlen) := by
  obtain ⟨i, hi, hrun, hlen, -, hend⟩ := copyLoop_spec dev.mixByte (dev.mixWanted setup)
    (fun _ => false) dev.havelen 0 maxlen
  simp only [Nat.zero_add, Bool.false_eq_true, or_false] at hrun hend
  refine ⟨i, hi, ?_, hlen, hend⟩
  rw [copyMixBandsTrim, hrun]

/-- Lines that are finished are whole lines in the buffer. -/
theorem mix_lines_le {i : Nat} (hi : i ≤ dev.havelen) :
    ((dev.dataindex + i) / dev.bytesPerLine - dev.dataindex / dev.bytesPerLine) * dev.bytesPerLine
      ≤ dev.datalen / dev.bytesPerLine * dev.bytesPerLine := by
  have hindex := Nat.div_add_mod dev.dataindex dev.bytesPerLine
  have hend := Nat.div_mul_le_self (dev.dataindex + i) dev.bytesPerLine
  rw [Nat.mul_comm] at hindex
  rw [Device.havelen] at hi
  rw [Nat.sub_mul]
  rcases Nat.eq_zero_or_pos i with rfl | hpos
  · rw [Nat.add_zero, Nat.sub_self]
    exact Nat.zero_le _
  · omega

/-- What is copied fits, and comes from the buffer. -/
theorem copyTrim_le (setup : ScanSetup) (dev : Device) (maxlen : Nat) :
    (copyTrim setup dev maxlen).clrlen ≤ dev.datalen ∧
      (copyTrim setup dev maxlen).out.length ≤ maxlen := by
  rw [copyTrim]
  split
  · obtain ⟨i, hi, hrun, hlen, -⟩ := copyMixBandsTrim_eq setup dev maxlen
    rw [hrun]
    exact ⟨(mix_lines_le hi).trans (Nat.div_mul_le_self _ _), hlen⟩
  · obtain ⟨i, hi, hrun, hlen, -⟩ := copyPlainTrim_eq setup dev maxlen
    rw [hrun]
    exact ⟨hi, hlen⟩

/-! ### The outer loop -/

theorem clear_ok (setup : ScanSetup) (h : dev.Ok) (r : Copied) : (dev.clear setup r).Ok := by
  have hlen := h.datalen_le
  have henough := h.enough
  rw [Device.clear]
  dsimp only
  split
  · exact ⟨Nat.succ_pos _, Nat.zero_le _, henough⟩
  · exact ⟨Nat.mod_lt _ (by decide), (Nat.sub_le _ _).trans hlen, henough⟩

@[simp] theorem blocklen_clear (setup : ScanSetup) (dev : Device) (r : Copied) :
    (dev.clear setup r).blocklen = dev.blocklen := by
  rw [Device.clear]
  dsimp only
  split <;> rfl

@[simp] theorem bytesPerLine_clear (setup : ScanSetup) (dev : Device) (r : Copied) :
    (dev.clear setup r).bytesPerLine = dev.bytesPerLine := by
  rw [Device.clear]
  dsimp only
  split <;> rfl

theorem datalen_clear_le (setup : ScanSetup) (dev : Device) (r : Copied) :
    (dev.clear setup r).datalen ≤ dev.datalen - r.clrlen := by
  rw [Device.clear]
  dsimp only
  split
  · exact Nat.zero_le _
  · exact le_rfl

theorem aligned_clear (h : dev.Aligned) {r : Copied} (hr : r.clrlen ≤ dev.datalen) :
    (dev.clear setup r).Aligned := by
  rcases h with h0 | htail
  · left
    rw [blocklen_clear, h0]
  · right
    rw [Device.clear]
    dsimp only
    split
    · exact Nat.dvd_of_mod_eq_zero rfl
    · simp only [Device.tail, USB_BLOCK_SIZE, DATASIZE] at htail ⊢
      omega

/-- What a turn of the outer loop leaves. -/
def turn (setup : ScanSetup) (dev : Device) (maxlen : Nat) : Device :=
  dev.clear setup (copyTrim setup dev maxlen)

/-- Nothing in the buffer can be copied: there is no whole line whose bands could be mixed, or
    there is nothing but padding. -/
def Device.Idle (setup : ScanSetup) (dev : Device) : Prop :=
  if setup.mixes then dev.datalen < dev.bytesPerLine
  else dev.datalen = 0 ∨ dev.vertical ≤ dev.dataindex / dev.bytesPerLine

instance (setup : ScanSetup) (dev : Device) : Decidable (dev.Idle setup) :=
  inferInstanceAs (Decidable (ite _ _ _))

/-- Otherwise a turn makes some progress. -/
theorem turn_of_not_idle (hwidth : 0 < dev.bytesPerLine) (hmax : 0 < maxlen)
    (h : ¬ dev.Idle setup) :
    (copyTrim setup dev maxlen).out ≠ [] ∨ (turn setup dev maxlen).datalen < dev.datalen := by
  have hlen := datalen_clear_le setup dev (copyTrim setup dev maxlen)
  have hle := (copyTrim_le setup dev maxlen).1
  suffices hcopied : (copyTrim setup dev maxlen).out ≠ [] ∨
      0 < (copyTrim setup dev maxlen).clrlen by
    rw [turn]
    exact hcopied.imp_right fun hclr => by omega
  have hfull : ∀ {out : List SaneByte}, out.length = maxlen → out ≠ [] := by
    rintro out hout rfl
    exact hmax.ne hout
  rw [Device.Idle] at h
  rw [copyTrim]
  split
  · rename_i hmixes
    rw [if_pos hmixes, Nat.not_lt] at h
    obtain ⟨i, hi, hrun, -, hend⟩ := copyMixBandsTrim_eq setup dev maxlen
    rw [hrun]
    rcases hend with hall | hend
    · -- the first line in the buffer is finished
      right
      have hone := Nat.mul_le_mul_right dev.bytesPerLine ((Nat.one_le_div_iff hwidth).mpr h)
      have hindex := Nat.div_add_mod dev.dataindex dev.bytesPerLine
      have hmod := Nat.mod_lt dev.dataindex hwidth
      rw [Nat.mul_comm] at hindex
      rw [Device.havelen] at hall
      have hnext : dev.dataindex / dev.bytesPerLine < (dev.dataindex + i) / dev.bytesPerLine := by
        rw [← Nat.succ_le_iff, Nat.le_div_iff_mul_le hwidth, Nat.succ_mul]
        omega
      exact Nat.mul_pos (by omega) hwidth
    · exact .inl (hfull hend)
  · rename_i hmixes
    rw [if_neg hmixes, not_or] at h
    obtain ⟨i, hi, hrun, -, -, hend⟩ := copyPlainTrim_eq setup dev maxlen
    rw [hrun]
    rcases hend with hall | hend | hstop
    · right
      dsimp only
      omega
    · exact .inl (hfull hend)
    · right
      rcases Nat.eq_zero_or_pos i with rfl | hpos
      · exact absurd hstop h.2
      · exact hpos

/-- The loop does not run for ever.  It waits for a transfer only if those before have not brought
    the block; otherwise it ends with what every turn keeps, or with an overrun. -/
theorem readLoop_cases (setup : ScanSetup) {I Q : Device → Nat → List SaneByte → Prop} {fuel : Nat}
    {out : List SaneByte} (h : dev.Ok) (hwidth : 0 < dev.bytesPerLine)
    (hfuel : dev.load < fuel) (hmax : 0 < maxlen) (hI : I dev maxlen out)
    (haligned : ∀ t ∈ ts, t ∈ ts')
    (hturn : ∀ dev dev' maxlen out, dev.Ok → I dev maxlen out → Filled dev dev' →
      (dataroom dev' < USB_BLOCK_SIZE ∨ dev'.blocklen = 0) → 0 < maxlen →
      (dev.blocklen = dev.source.length → (∀ t ∈ ts', USB_BLOCK_SIZE ∣ t) → dev.Aligned →
        dev'.Aligned) →
      I (turn setup dev' maxlen) (maxlen - (copyTrim setup dev' maxlen).out.length)
        (out ++ (copyTrim setup dev' maxlen).out) ∧
      Q (turn setup dev' maxlen) (maxlen - (copyTrim setup dev' maxlen).out.length)
        (out ++ (copyTrim setup dev' maxlen).out)) :
    (readLoop setup fuel dev ts maxlen out = .waiting ∧ ts.countP (0 < ·) < dev.blocklen) ∨
    (∃ dev₀ dev' maxlen' out' n, readLoop setup fuel dev ts maxlen out
        = .done .ioError out' { receive dev' n with scanning := false } ∧ I dev₀ maxlen' out' ∧
      Filled dev₀ dev' ∧ dev'.blocklen < n ∧ n ≤ dataroom dev' ∧ n ≤ dev'.source.length) ∨
    ∃ dev' maxlen' out', readLoop setup fuel dev ts maxlen out = .done .good out' dev' ∧
      dev'.Ok ∧ I dev' maxlen' out' ∧ Q dev' maxlen' out' := by
  induction fuel generalizing dev ts maxlen out with
  | zero => omega
  | succ fuel ih =>
    rw [readLoop]
    rcases fill_cases h ts with ⟨hwait, hless⟩ | ⟨dev', n, hend, hfilled, hover⟩ |
      ⟨dev', ts₁, hend, hfilled, hsuffix, hstop, hless, hdev'⟩
    · left
      rw [hwait]
      exact ⟨rfl, hless⟩
    · right; left
      rw [hend]
      exact ⟨dev, dev', maxlen, out, n, rfl, hI, hfilled, hover⟩
    · have hwidth' : 0 < dev'.bytesPerLine := by
        rw [hfilled.same]
        exact hwidth
      obtain ⟨hnextI, hnextQ⟩ := hturn dev dev' maxlen out h hI hfilled hstop hmax
        fun hexact hts => hdev' hexact fun t ht => hts t (haligned t ht)
      have hok := clear_ok setup hfilled.ok (copyTrim setup dev' maxlen)
      obtain ⟨hclr, hout⟩ := copyTrim_le setup dev' maxlen
      rw [hend]
      dsimp only
      rw [if_neg (by omega)]
      split
      · right; right
        exact ⟨_, _, _, rfl, hok, hnextI, hnextQ⟩
      · rename_i hgo
        rw [not_or, not_or] at hgo
        have hlen := datalen_clear_le setup dev' (copyTrim setup dev' maxlen)
        have hload := hfilled.load
        have hless' : (dev'.clear setup (copyTrim setup dev' maxlen)).load < fuel := by
          rw [Device.load] at hload ⊢
          rw [blocklen_clear]
          rw [Device.load] at hload hfuel
          omega
        rcases ih hok (by rwa [bytesPerLine_clear]) hless' (by omega) hnextI
            (fun t ht => haligned t (hsuffix.subset ht)) with
          ⟨hwait, hcount⟩ | hover | hdone
        · left
          refine ⟨hwait, ?_⟩
          rw [blocklen_clear] at hcount
          omega
        · exact .inr (.inl hover)
        · exact .inr (.inr hdone)

end SaneBackends.XeroxMfp
