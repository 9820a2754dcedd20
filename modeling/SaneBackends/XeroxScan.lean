import SaneBackends.XeroxImage

/-!
# A scan with a Xerox or Samsung scanner

The calls of `sane_read` from `sane_start` to the end of the image.  No call may find the
last bytes of a block still in the buffer and take them for the padding behind the block.
-/

namespace SaneBackends.XeroxMfp

open LabelledRun RingMemory

variable {setup : ScanSetup} {b : Block} {bs : List Block} {dev dev' : Device} {maxlen : Nat}

/-! ### The lines of an image -/

/-- The bytes of a line as they are sent. -/
def Block.row (setup : ScanSetup) (b : Block) (i : Nat) : List SaneByte :=
  (b.data.drop (i * setup.bytesPerLine b.horizontal)).take (setup.bytesPerLine b.horizontal)

/-- The bands of a row, one behind the other, pixel by pixel. -/
def mixBands (horizontal : Nat) (row : List SaneByte) : List SaneByte :=
  (List.range horizontal).flatMap fun x =>
    [row.getD x 0, row.getD (horizontal + x) 0, row.getD (2 * horizontal + x) 0]

def Block.line (setup : ScanSetup) (b : Block) (i : Nat) : List SaneByte :=
  if setup.mixes then mixBands b.horizontal (b.row setup i) else b.row setup i

def Block.lines (setup : ScanSetup) (b : Block) : List (List SaneByte) :=
  (List.range b.vertical).map (b.line setup)

/-- The lines that the scanner sends, up to the end of the final block. -/
def sentLines (setup : ScanSetup) : List Block → List (List SaneByte)
  | [] => []
  | b :: bs => b.lines setup ++ if b.final then [] else sentLines setup bs

namespace ScanSetup

/-- The lines that lie within the image, cut to its width. -/
def sentImage (setup : ScanSetup) (bs : List Block) : List SaneByte :=
  ((sentLines setup bs).take setup.lines).flatMap fun line => line.take setup.paraBytesPerLine

/-- What is missing is white. -/
def image (setup : ScanSetup) (bs : List Block) : List SaneByte :=
  setup.sentImage bs
    ++ List.replicate (setup.totalImgSize - (setup.sentImage bs).length) 0xff

end ScanSetup

/-! ### The lines byte by byte -/

theorem picked_all {byte : Nat → SaneByte} {wanted : Nat → Bool} {j i : Nat}
    (h : ∀ d < i, wanted (j + d) = true) :
    picked byte wanted j i = (List.range i).map fun d => byte (j + d) := by
  induction i with
  | zero => rfl
  | succ i ih =>
    have hlast : picked byte wanted (j + i) 1 = [byte (j + i)] := by
      rw [picked_succ, if_pos (h i (Nat.lt_succ_self i))]
      rfl
    rw [picked_append, ih fun d hd => h d (Nat.lt_succ_of_lt hd), hlast, List.range_succ,
      List.map_append]
    rfl

/-- A line is cut to its first `p` bytes. -/
theorem picked_take {byte : Nat → SaneByte} {wanted : Nat → Bool} {j i p : Nat}
    (h : ∀ d < i, wanted (j + d) = decide (d < p)) :
    picked byte wanted j i = ((List.range i).map fun d => byte (j + d)).take p := by
  have hsplit : i = min p i + (i - p) := by omega
  rw [← List.map_take, List.take_range, hsplit, picked_append, ← hsplit,
    picked_all fun d hd => by rw [h d (by omega), decide_eq_true_eq]; omega,
    picked_none fun d hd => by
      rw [Nat.add_assoc, h _ (by omega), decide_eq_false_iff_not]
      omega,
    List.append_nil]

theorem mixBands_eq (horizontal : Nat) (row : List SaneByte) :
    mixBands horizontal row
      = (List.range (horizontal * 3)).map fun d => row.getD (d % 3 * horizontal + d / 3) 0 := by
  have hrange : ∀ n, (List.range n).flatMap (fun x =>
      [row.getD x 0, row.getD (horizontal + x) 0, row.getD (2 * horizontal + x) 0])
      = (List.range (n * 3)).map fun d => row.getD (d % 3 * horizontal + d / 3) 0 := by
    intro n
    induction n with
    | zero => rfl
    | succ n ih =>
      rw [List.range_succ, List.flatMap_append, ih, Nat.succ_mul n 3, List.range_add, List.map_append]
      congr 1
      have h0 : n * 3 % 3 * horizontal + n * 3 / 3 = n := by
        rw [Nat.mul_mod_left, Nat.mul_div_cancel n (by decide), Nat.zero_mul, Nat.zero_add]
      have h1 : (n * 3 + 1) % 3 * horizontal + (n * 3 + 1) / 3 = horizontal + n := by
        rw [show (n * 3 + 1) % 3 = 1 by omega, show (n * 3 + 1) / 3 = n by omega, Nat.one_mul]
      have h2 : (n * 3 + 2) % 3 * horizontal + (n * 3 + 2) / 3 = 2 * horizontal + n := by
        rw [show (n * 3 + 2) % 3 = 2 by omega, show (n * 3 + 2) / 3 = n by omega]
      simp only [List.flatMap_cons, List.flatMap_nil, List.append_nil, List.range_succ,
        List.range_zero, List.nil_append, List.cons_append, List.map_cons, List.map_nil,
        Nat.add_zero, h0, h1, h2]
  exact hrange horizontal

/-- A line of a block that has been sent whole. -/
theorem line_eq (hb : b.Exact setup) {i : Nat} (hi : i < b.vertical) :
    b.line setup i = (List.range (setup.bytesPerLine b.horizontal)).map fun d =>
      b.data.getD (setup.origin b.horizontal (i * setup.bytesPerLine b.horizontal + d)) 0 := by
  have hpos := hb.width_pos
  have hlines := hb.lines_le
  have hdata := hb.length_data
  have hthree := fun h : setup.mixes = true => bytesPerLine_of_mixes h b.horizontal
  generalize hB : setup.bytesPerLine b.horizontal = B at *
  have hend := Nat.mul_le_mul_right B (show i + 1 ≤ b.vertical from hi)
  rw [Nat.succ_mul] at hend
  have hrow : ∀ d < B, (b.row setup i).getD d 0 = b.data.getD (i * B + d) 0 := by
    intro d hd
    rw [Block.row, hB, List.getD_eq_getElem?_getD, List.getElem?_take_of_lt hd,
      List.getElem?_drop, ← List.getD_eq_getElem?_getD]
  have hlen : (b.row setup i).length = B := by
    rw [Block.row, hB, List.length_take_of_le]
    rw [List.length_drop]
    omega
  rw [Block.line]
  split
  · rename_i hmixes
    rw [mixBands_eq, ← hthree hmixes]
    apply List.map_congr_left
    intro d hd
    have hd' := List.mem_range.mp hd
    have hx : d / 3 < b.horizontal := by
      rw [Nat.div_lt_iff_lt_mul (by decide), ← hthree hmixes]
      exact hd'
    have hband : d % 3 * b.horizontal ≤ 2 * b.horizontal := Nat.mul_le_mul_right _ (by omega)
    have hmod : (i * B + d) % B = d := by
      rw [Nat.mul_add_mod', Nat.mod_eq_of_lt hd']
    have hthird : (i * B + d) % 3 = d % 3 := by
      rw [hthree hmixes, ← Nat.mul_assoc, Nat.mul_comm _ 3, Nat.mul_add_mod]
    have hdiv : (i * B + d) / B = i := by
      rw [Nat.mul_comm, Nat.mul_add_div hpos, Nat.div_eq_of_lt hd', Nat.add_zero]
    rw [hrow _ (by rw [hthree hmixes]; omega), ScanSetup.origin, hB]
    simp only [if_pos hmixes, hmod, hthird, hdiv]
  · rename_i hmixes
    have horigin : ∀ k, setup.origin b.horizontal k = k := fun k => if_neg hmixes
    apply List.ext_getElem?
    intro d
    rw [List.getElem?_map]
    by_cases hd : d < B
    · rw [List.getElem?_range hd, Option.map_some, horigin, ← hrow d hd,
        List.getD_eq_getElem?_getD, List.getElem?_eq_getElem (by omega)]
      rfl
    · rw [List.getElem?_eq_none (by omega), List.getElem?_eq_none (by rw [List.length_range]; omega)]
      rfl

/-- The lines of a block that are left above the end of the image. -/
theorem blockRest_lines (hb : b.Exact setup) (top : Nat) :
    blockRest setup b top 0 = ((b.lines setup).take (setup.lines - top)).flatMap fun line =>
      line.take setup.paraBytesPerLine := by
  have hline := fun i => line_eq (i := i) hb
  have hpos := hb.width_pos
  rw [blockRest, Nat.sub_zero, Block.lines]
  generalize hB : setup.bytesPerLine b.horizontal = B at *
  have hprefix : ∀ n ≤ b.vertical, picked (fun k => b.data.getD (setup.origin b.horizontal k) 0)
      (setup.wanted b.horizontal top) 0 (n * B) = (((List.range n).map (b.line setup)).take
        (setup.lines - top)).flatMap fun line => line.take setup.paraBytesPerLine := by
    intro n hn
    induction n with
    | zero =>
      rw [Nat.zero_mul, List.range_zero, List.map_nil, List.take_nil]
      rfl
    | succ n ih =>
      have hwanted : ∀ d < B, setup.wanted b.horizontal top (0 + n * B + d)
          = (decide (d < setup.paraBytesPerLine) && decide (n + top < setup.lines)) := by
        intro d hd
        have hmod : (n * B + d) % B = d := by rw [Nat.mul_add_mod', Nat.mod_eq_of_lt hd]
        have hdiv : (n * B + d) / B = n := by
          rw [Nat.mul_comm, Nat.mul_add_div hpos, Nat.div_eq_of_lt hd, Nat.add_zero]
        simp only [ScanSetup.wanted, hB, Nat.zero_add, hmod, hdiv]
      have hlen : ((List.range n).map (b.line setup)).length = n := by
        rw [List.length_map, List.length_range]
      rw [Nat.succ_mul, picked_append, ih (Nat.le_of_succ_le hn), List.range_succ,
        List.map_append, List.take_append, List.flatMap_append, hlen]
      congr 1
      by_cases hin : n + top < setup.lines
      · have hlast : [b.line setup n].take (setup.lines - top - n) = [b.line setup n] :=
          List.take_of_length_le (show 1 ≤ _ by omega)
        rw [picked_take (p := setup.paraBytesPerLine) fun d hd => by
            rw [hwanted d hd, decide_eq_true hin, Bool.and_true],
          List.map_singleton, hlast, List.flatMap_singleton, hline n hn, Nat.zero_add]
      · rw [picked_none fun d hd => by
            rw [hwanted d hd, decide_eq_false hin, Bool.and_false],
          show setup.lines - top - n = 0 by omega, List.take_zero]
        rfl
  exact hprefix b.vertical le_rfl

/-- The bytes of the image in the blocks `bs`, of which the first begins with line `top`. -/
def laterImage (setup : ScanSetup) : Nat → List Block → List SaneByte
  | _, [] => []
  | top, b :: bs =>
    blockRest setup b top 0 ++ if b.final then [] else laterImage setup (top + b.vertical) bs

theorem laterImage_eq (hbs : ∀ b ∈ bs, b.Exact setup) (top : Nat) :
    laterImage setup top bs = ((sentLines setup bs).take (setup.lines - top)).flatMap fun line =>
      line.take setup.paraBytesPerLine := by
  induction bs generalizing top with
  | nil =>
    rw [sentLines, List.take_nil]
    rfl
  | cons b bs ih =>
    have hlen : (b.lines setup).length = b.vertical := by
      rw [Block.lines, List.length_map, List.length_range]
    rw [laterImage, sentLines, blockRest_lines (hbs b List.mem_cons_self), List.take_append,
      List.flatMap_append, hlen]
    congr 1
    split
    · rw [List.take_nil]
      rfl
    · rw [ih fun b hb => hbs b (List.mem_cons_of_mem _ hb), Nat.sub_sub]

theorem laterImage_zero (hbs : ∀ b ∈ bs, b.Exact setup) :
    laterImage setup 0 bs = setup.sentImage bs := laterImage_eq hbs 0

/-! ### A call -/

theorem acquire_eq (hb : b.Exact setup) (dev : Device) (bs : List Block) :
    readImage (devAcquire setup dev b bs) = { dev with
      vertical := b.vertical, horizontal := b.horizontal, blocklen := b.blocklen
      finalBlock := b.final, bytesPerLine := setup.bytesPerLine b.horizontal
      source := b.data, blocks := bs, reading := true, dataindex := 0, datalen := 0
      dataoff := 0, ulines := dev.ulines + b.vertical, yOff := dev.ulines } := by
  rw [devAcquire]
  dsimp only
  rw [if_neg (Nat.not_lt.mpr hb.width_le)]
  rfl

theorem inBlock_acquire (hb : b.Exact setup) (dev : Device) (bs : List Block) :
    InBlock setup b (readImage (devAcquire setup dev b bs)) := by
  rw [acquire_eq hb]
  refine ⟨⟨Nat.succ_pos _, Nat.zero_le _, b.enough⟩, hb.length_data.symm, rfl, rfl, rfl,
    .inr ⟨Nat.zero_le _, ?_⟩⟩
  have hbase : setup.base b.horizontal 0 = 0 := by
    rw [ScanSetup.base]
    split
    · rw [Nat.zero_div, Nat.zero_mul]
    · rfl
  rw [hbase]
  rfl

theorem readImage_of_reading (h : dev.reading = true) : readImage dev = dev := by
  rw [readImage, if_pos h]

theorem readImage_same (dev : Device) : readImage dev = { dev with
    reading := true, ulines := (readImage dev).ulines, yOff := (readImage dev).yOff } := by
  cases hreading : dev.reading with
  | true =>
    rw [readImage_of_reading hreading, ← hreading]
  | false =>
    rw [readImage, if_neg (by rw [hreading]; decide)]

/-- If the room is used up but for a part of a USB block, the buffer is nearly full. -/
theorem datalen_of_aligned (h : dev.Ok) (haligned : dev.Aligned) (hblock : dev.blocklen ≠ 0)
    (hroom : dataroom dev < USB_BLOCK_SIZE) : DATASIZE < dev.datalen + USB_BLOCK_SIZE := by
  have htail := haligned.resolve_left hblock
  have hoff := h.dataoff_lt
  have hlen := h.datalen_le
  have hcases : dev.tail = dev.dataoff + dev.datalen ∨
      dev.tail + DATASIZE = dev.dataoff + dev.datalen := by
    have hmod := tail_cases h
    split_ifs at hmod
    · exact .inl hmod
    · right
      omega
  by_cases hfull : dev.datalen = DATASIZE
  · rw [hfull]
    exact Nat.lt_add_of_pos_right (by decide)
  · rw [dataroom] at hroom
    by_cases hwrap : dev.tail < dev.dataoff
    · rw [if_pos hwrap] at hroom
      omega
    · rw [if_neg hwrap, if_neg hfull] at hroom
      have htail_lt : dev.tail < DATASIZE := Nat.mod_lt _ (by decide)
      simp only [USB_BLOCK_SIZE, DATASIZE] at htail hroom htail_lt
      omega

/-- What brings a scan nearer to its end: bytes for the caller, fewer bytes in the buffer, or the
    last transfer of a block. -/
def Advanced (dev dev' : Device) (out : List SaneByte) : Prop :=
  out ≠ [] ∨ dev'.load < dev.load ∨ (dev.blocklen ≠ 0 ∧ dev'.blocklen = 0)

theorem Turned.advanced {dev₀ : Device} {out out' : List SaneByte}
    (h : Turned setup b dev dev' out') (hadvanced : Advanced dev₀ dev out) :
    Advanced dev₀ dev' (out ++ out') := by
  rcases hadvanced with hout | hload | ⟨hblock, hzero⟩
  · exact .inl (List.append_ne_nil_of_left_ne_nil hout _)
  · exact .inr (.inl (h.load_le.trans_lt hload))
  · exact .inr (.inr ⟨hblock, Nat.eq_zero_of_le_zero (hzero ▸ h.blocklen_le)⟩)

/-- Lines whose bands are mixed fit into the buffer with a part of a USB block left over. -/
def Block.Fits (setup : ScanSetup) (b : Block) : Prop :=
  setup.mixes = true → setup.bytesPerLine b.horizontal + USB_BLOCK_SIZE ≤ DATASIZE + 1

/-- A turn of the outer loop makes some progress. -/
theorem InBlock.advanced (hb : b.Exact setup) (hfits : b.Fits setup) (h : InBlock setup b dev)
    (hmore : ¬ (dev.blocklen = 0 ∧ dev.datalen ≤ PADDING_SIZE)) (hmax : 0 < maxlen)
    (hfilled : Filled dev dev') (hroom : dataroom dev' < USB_BLOCK_SIZE ∨ dev'.blocklen = 0)
    (haligned : dev'.Aligned) :
    Advanced dev (turn setup dev' maxlen) (copyTrim setup dev' maxlen).out := by
  have hload := hfilled.load
  have hblocklen : (turn setup dev' maxlen).blocklen = dev'.blocklen := blocklen_clear setup dev' _
  have hless : (turn setup dev' maxlen).datalen < dev'.datalen →
      (turn setup dev' maxlen).load < dev.load := by
    intro hlt
    rw [← hload, Device.load, Device.load, hblocklen]
    omega
  by_cases hzero : dev'.blocklen = 0
  · by_cases hblock : dev.blocklen = 0
    · rw [Device.load, Device.load] at hload
      rcases (h.filled hfilled).progress hb hmax (by omega)
          (fun _ hne => absurd hzero hne) with hout | hlt
      · exact .inl hout
      · exact .inr (.inl (hless hlt))
    · exact .inr (.inr ⟨hblock, hblocklen.trans hzero⟩)
  · have hfull := datalen_of_aligned hfilled.ok haligned hzero (hroom.resolve_right hzero)
    simp only [USB_BLOCK_SIZE, DATASIZE] at hfull
    rcases (h.filled hfilled).progress hb hmax (by rw [PADDING_SIZE]; omega)
        (fun hmixes _ => by
          have := hfits hmixes
          simp only [USB_BLOCK_SIZE, DATASIZE] at this
          omega) with hout | hlt
    · exact .inl hout
    · exact .inr (.inl (hless hlt))

/-- What a call that reads leaves of a block. -/
theorem InBlock.readLoop (hb : b.Exact setup) (h : InBlock setup b dev) {ts : List Nat}
    (hmax : 0 < maxlen) {status : SaneStatus} {out : List SaneByte}
    (hdone : readLoop setup (dev.load + 1) dev ts maxlen [] = .done status out dev') :
    status = .good ∧ Turned setup b dev dev' out ∧
      (b.Fits setup → (∀ t ∈ ts, USB_BLOCK_SIZE ∣ t) → dev.Aligned → dev'.Aligned ∧
        (¬ (dev.blocklen = 0 ∧ dev.datalen ≤ PADDING_SIZE) → Advanced dev dev' out)) := by
  have hwidth : 0 < dev.bytesPerLine := by
    rw [h.bytesPerLine]
    exact hb.width_pos
  let Kept (d : Device) (out : List SaneByte) : Prop := Turned setup b dev d out ∧
    (b.Fits setup → (∀ t ∈ ts, USB_BLOCK_SIZE ∣ t) → dev.Aligned → d.Aligned)
  let Moved (d : Device) (out : List SaneByte) : Prop :=
    b.Fits setup → (∀ t ∈ ts, USB_BLOCK_SIZE ∣ t) → dev.Aligned →
      ¬ (dev.blocklen = 0 ∧ dev.datalen ≤ PADDING_SIZE) → Advanced dev d out
  have hcases := readLoop_cases setup
    (I := fun d _ out => Kept d out ∧ (d = dev ∧ out = [] ∨ Moved d out))
    (Q := fun d _ out => Moved d out) h.ok hwidth (Nat.lt_succ_self _) hmax
    ⟨⟨Turned.refl h, fun _ _ => id⟩, .inl ⟨rfl, rfl⟩⟩ (fun t (ht : t ∈ ts) => ht) ?_
  · rcases hcases with ⟨hwait, -⟩ | ⟨dev₀, dev₁, m, out₁, n, hover, ⟨⟨hkept, -⟩, -⟩, hfilled, hn⟩ |
      ⟨dev₁, m, out₁, hgood, -, ⟨hkept, -⟩, hmoved⟩
    · rw [hwait] at hdone
      cases hdone
    · -- the scanner sends no more than the block
      have hexact := (hkept.inBlock.filled hfilled).exact
      omega
    · rw [hgood] at hdone
      cases hdone
      exact ⟨rfl, hkept.1, fun hfits hts haligned => ⟨hkept.2 hfits hts haligned,
        hmoved hfits hts haligned⟩⟩
  · rintro d d' m out - ⟨⟨hturned, haligned⟩, hmoved⟩ hfilled hroom hm hstays
    have hnext := (hturned.inBlock.filled hfilled).turned hb m
    have hall : Turned setup b d (turn setup d' m) (copyTrim setup d' m).out :=
      (Turned.filled hturned.inBlock hfilled).trans hnext
    have hdaligned : b.Fits setup → (∀ t ∈ ts, USB_BLOCK_SIZE ∣ t) → dev.Aligned → d'.Aligned :=
      fun hfits hts hdev => hstays hturned.inBlock.exact hts (haligned hfits hts hdev)
    have hmoves : Moved (turn setup d' m) (out ++ (copyTrim setup d' m).out) := by
      intro hfits hts hdev hmore
      rcases hmoved with ⟨rfl, rfl⟩ | hmoved
      · exact h.advanced hb hfits hmore hm hfilled hroom (hdaligned hfits hts hdev)
      · exact hall.advanced (hmoved hfits hts hdev hmore)
    exact ⟨⟨⟨hturned.trans hall, fun hfits hts hdev => aligned_clear (hdaligned hfits hts hdev)
      (copyTrim_le setup d' m).1⟩, .inr hmoves⟩, hmoves⟩

/-! ### Runs -/

/-- A call of `sane_read`, and the lengths that the transport returns during it. -/
structure ReadCall where
  maxlen : Nat
  maxlen_pos : 0 < maxlen
  transfers : List Nat

/-- The scanner between two calls, how the last one has ended, and what has been returned. -/
structure ScanRun where
  dev : Device
  status : SaneStatus
  delivered : List SaneByte

def startScan (setup : ScanSetup) (mem : Nat → SaneByte) (b : Block) (bs : List Block) : ScanRun :=
  ⟨saneStart setup mem b bs, .good, []⟩

/-- What a call that returns leads to. -/
def ScanRun.next (setup : ScanSetup) (u : ScanRun) (call : ReadCall) : Option ScanRun :=
  match saneRead setup u.dev call.maxlen call.transfers with
  | .done status out dev => some ⟨dev, status, u.delivered ++ out⟩
  | .running | .waiting | .fault => none

/-- The end of a block, with bytes of the image, is still in the buffer, and is going to be taken
    for the padding behind the block. -/
def Device.Drops (setup : ScanSetup) (dev : Device) : Prop :=
  dev.blocklen = 0 ∧ dev.datalen ≤ PADDING_SIZE ∧
    ∃ k < dev.vertical * dev.bytesPerLine,
      dev.dataindex ≤ k ∧ setup.wanted dev.horizontal (readImage dev).yOff k = true

instance (setup : ScanSetup) (dev : Device) : Decidable (dev.Drops setup) :=
  inferInstanceAs (Decidable (_ ∧ _ ∧ _))

/-- A call that does not drop anything. -/
def ScanRun.SafeStep (setup : ScanSetup) (u : ScanRun) (call : ReadCall) (u' : ScanRun) : Prop :=
  ¬ u.dev.Drops setup ∧ u.next setup call = some u'

variable {all : List Block} {delivered out : List SaneByte} {status : SaneStatus} {ts : List Nat}

/-- Block `b` of the blocks `all` is being read. -/
structure Within (setup : ScanSetup) (all : List Block) (b : Block) (dev : Device)
    (delivered : List SaneByte) : Prop where
  mem : b ∈ all
  inBlock : InBlock setup b dev
  scanning : dev.scanning = true
  reading : dev.reading = true
  final : dev.finalBlock = b.final
  ulines : dev.ulines = dev.yOff + b.vertical
  totalOutSize : dev.totalOutSize = delivered.length
  blocks : ∀ c ∈ dev.blocks, c ∈ all
  someFinal : ∃ c ∈ b :: dev.blocks, c.final = true
  rest : delivered ++ (blockRest setup b dev.yOff dev.dataindex ++
    if b.final then [] else laterImage setup dev.ulines dev.blocks) = setup.sentImage all

/-- All blocks have been read, and the image is being filled up. -/
structure FillingUp (setup : ScanSetup) (all : List Block) (dev : Device)
    (delivered : List SaneByte) : Prop where
  scanning : dev.scanning = true
  blocklen : dev.blocklen = 0
  datalen_le : dev.datalen ≤ PADDING_SIZE
  final : dev.finalBlock = true
  totalOutSize : dev.totalOutSize = delivered.length
  filled : ∃ n ≤ setup.totalImgSize - (setup.sentImage all).length,
    delivered = setup.sentImage all ++ List.replicate n 0xff

/-- A block has been acquired. -/
theorem within_acquire (hb : b.Exact setup) (hscanning : dev.scanning = true)
    (htotal : dev.totalOutSize = delivered.length) (hbs : ∀ c ∈ b :: bs, c ∈ all)
    (hfinal : ∃ c ∈ b :: bs, c.final = true)
    (hrest : delivered ++ laterImage setup dev.ulines (b :: bs) = setup.sentImage all) :
    Within setup all b (readImage (devAcquire setup dev b bs)) delivered := by
  have hin := inBlock_acquire hb dev bs
  rw [acquire_eq hb] at hin ⊢
  exact
    { mem := hbs b List.mem_cons_self, inBlock := hin, scanning := hscanning, reading := rfl
      final := rfl, ulines := rfl, totalOutSize := htotal
      blocks := fun c hc => hbs c (List.mem_cons_of_mem b hc)
      someFinal := hfinal, rest := hrest }

theorem Within.turned (h : Within setup all b dev delivered)
    (hturned : Turned setup b dev dev' out) : Within setup all b dev' (delivered ++ out) := by
  have hsame := hturned.same
  exact
    { mem := h.mem, inBlock := hturned.inBlock
      scanning := by rw [hsame]; exact h.scanning
      reading := by rw [hsame]; exact h.reading
      final := by rw [hsame]; exact h.final
      ulines := by rw [hsame]; exact h.ulines
      totalOutSize := by
        rw [hturned.totalOutSize, h.totalOutSize, List.length_append]
      blocks := by rw [hsame]; exact h.blocks
      someFinal := by rw [hsame]; exact h.someFinal
      rest := by
        have hrest := h.rest
        rw [← hturned.rest] at hrest
        have hulines : dev'.ulines = dev.ulines := by rw [hsame]
        have hblocks : dev'.blocks = dev.blocks := by rw [hsame]
        rw [hulines, hblocks]
        rw [← hrest, List.append_assoc, List.append_assoc] }

/-- If nothing is dropped, nothing of the block is left when it has ended. -/
theorem Within.nothing_left (h : Within setup all b dev delivered)
    (hdrops : ¬ dev.Drops setup) (hblock : dev.blocklen = 0) (hdata : dev.datalen ≤ PADDING_SIZE) :
    blockRest setup b dev.yOff dev.dataindex = [] := by
  apply picked_none
  intro d hd
  rw [Bool.eq_false_iff]
  intro hwanted
  refine hdrops ⟨hblock, hdata, dev.dataindex + d, ?_, Nat.le_add_right _ _, ?_⟩
  · rw [h.inBlock.vertical, h.inBlock.bytesPerLine]
    omega
  · rw [readImage_of_reading h.reading, h.inBlock.horizontal]
    exact hwanted

/-- What is known between two calls. -/
inductive ScanRun.Kept (setup : ScanSetup) (all : List Block) (u : ScanRun) : Prop where
  | within (b : Block) (h : Within setup all b (readImage u.dev) u.delivered)
      (hstart : u.dev.reading = false → u.dev.blocklen = b.blocklen) (hgood : u.status = .good)
  | filling (h : FillingUp setup all u.dev u.delivered) (hgood : u.status = .good)
  | ended (hscanning : u.dev.scanning = false) (hall : u.delivered = setup.image all)
      (heof : u.status = .eof)

/-- What is left to do before the end of the image. -/
def ScanRun.left (setup : ScanSetup) (all : List Block) (u : ScanRun) : Nat :=
  (u.dev.blocks.map fun b => b.blocklen + 2).sum + u.dev.load
    + (if u.dev.blocklen = 0 then 0 else 1) + ((setup.image all).length - u.delivered.length)

theorem ScanRun.Kept.delivered_le {u : ScanRun} (h : u.Kept setup all) :
    u.delivered <+: setup.image all := by
  cases h with
  | within b h =>
    rw [ScanSetup.image, ← h.rest, List.append_assoc]
    exact List.prefix_append _ _
  | filling h =>
    obtain ⟨n, hn, hdelivered⟩ := h.filled
    rw [hdelivered, ScanSetup.image, List.prefix_append_right_inj]
    obtain ⟨m, hm⟩ := Nat.exists_eq_add_of_le hn
    rw [hm, List.replicate_add]
    exact List.prefix_append _ _
  | ended _ hall => rw [hall]

/-- A call that reads block `b`. -/
theorem Within.read (h : Within setup all b dev delivered) (hb : b.Exact setup) (hmax : 0 < maxlen)
    (hdone : readLoop setup (dev.load + 1) dev ts maxlen [] = .done status out dev') :
    status = .good ∧ Within setup all b dev' (delivered ++ out) ∧
      dev'.blocks = dev.blocks ∧ dev'.load ≤ dev.load ∧ dev'.blocklen ≤ dev.blocklen ∧
      (b.Fits setup → (∀ t ∈ ts, USB_BLOCK_SIZE ∣ t) → dev.Aligned → dev'.Aligned ∧
        (¬ (dev.blocklen = 0 ∧ dev.datalen ≤ PADDING_SIZE) → Advanced dev dev' out)) := by
  obtain ⟨hgood, hturned, hmoves⟩ := h.inBlock.readLoop hb hmax hdone
  refine ⟨hgood, h.turned hturned, ?_, hturned.load_le, hturned.blocklen_le, hmoves⟩
  rw [hturned.same]

/-- A call that fills up the image. -/
theorem FillingUp.read (h : FillingUp setup all dev delivered) (hmax : 0 < maxlen)
    (hread : saneRead setup dev maxlen ts = .done status out dev') :
    (status = .good ∧ out ≠ [] ∧ FillingUp setup all dev' (delivered ++ out) ∧
      dev' = { dev with totalOutSize := dev'.totalOutSize }) ∨
    status = .eof ∧ dev'.scanning = false ∧ delivered ++ out = setup.image all := by
  obtain ⟨n, hn, hdelivered⟩ := h.filled
  have htotal := h.totalOutSize
  have hlen : delivered.length = (setup.sentImage all).length + n := by
    rw [hdelivered, List.length_append, List.length_replicate]
  rw [saneRead, if_neg (by rw [h.scanning]; decide), if_pos ⟨h.blocklen, h.datalen_le⟩,
    if_pos h.final] at hread
  split at hread
  · left
    rename_i hslack
    cases hread
    have hmore : 0 < min (setup.totalImgSize - dev.totalOutSize) maxlen := by omega
    have hfilled : ∃ m ≤ setup.totalImgSize - (setup.sentImage all).length,
        delivered ++ List.replicate (min (setup.totalImgSize - dev.totalOutSize) maxlen) 0xff
          = setup.sentImage all ++ List.replicate m 0xff := by
      refine ⟨n + min (setup.totalImgSize - dev.totalOutSize) maxlen, by omega, ?_⟩
      rw [List.replicate_add, hdelivered, List.append_assoc]
    refine ⟨rfl, ?_, ⟨h.scanning, h.blocklen, h.datalen_le, h.final, ?_, hfilled⟩, rfl⟩
    · rw [Ne, List.replicate_eq_nil_iff]
      omega
    · rw [List.length_append, List.length_replicate, htotal]
  · right
    rename_i hslack
    cases hread
    refine ⟨rfl, rfl, ?_⟩
    rw [List.append_nil, hdelivered, ScanSetup.image]
    congr 2
    omega

/-- As long as transfers are whole USB blocks, each call comes nearer to the end. -/
def ScanRun.Nearer (setup : ScanSetup) (all : List Block) (u : ScanRun) (call : ReadCall)
    (u' : ScanRun) : Prop :=
  (∀ b ∈ all, b.Fits setup) → (∀ t ∈ call.transfers, USB_BLOCK_SIZE ∣ t) → u.dev.Aligned →
    u'.dev.Aligned ∧ u'.left setup all < u.left setup all

variable {u u' : ScanRun} {call : ReadCall}

theorem next_cases (h : u.next setup call = some u') : ∃ out,
    saneRead setup u.dev call.maxlen call.transfers = .done u'.status out u'.dev ∧
      u'.delivered = u.delivered ++ out := by
  rw [ScanRun.next] at h
  split at h
  · rename_i hread
    cases h
    exact ⟨_, hread, rfl⟩
  all_goals cases h

theorem FillingUp.step (h : FillingUp setup all u.dev u.delivered)
    (hstep : u.next setup call = some u') :
    u'.Kept setup all ∧ (u'.status = .good → u.Nearer setup all call u') := by
  obtain ⟨out, hread, hdelivered⟩ := next_cases hstep
  rcases h.read call.maxlen_pos hread with ⟨hgood, hout, hfilling, hsame⟩ | ⟨heof, hend, himage⟩
  · rw [← hdelivered] at hfilling
    have hnext : u'.Kept setup all := .filling hfilling hgood
    refine ⟨hnext, fun _ _ _ _ => ⟨.inl hfilling.blocklen, ?_⟩⟩
    have hle := hnext.delivered_le.length_le
    have hpos := List.length_pos_of_ne_nil hout
    rw [hdelivered, List.length_append] at hle
    rw [ScanRun.left, ScanRun.left, hdelivered, hsame, Device.load, Device.load,
      List.length_append]
    dsimp only
    omega
  · rw [← hdelivered] at himage
    refine ⟨.ended hend himage heof, fun hgood => ?_⟩
    rw [heof] at hgood
    cases hgood

theorem drops_readImage (h : ¬ dev.Drops setup) : ¬ (readImage dev).Drops setup := by
  have himage : readImage (readImage dev) = readImage dev :=
    readImage_of_reading (by rw [readImage_same])
  rw [Device.Drops, himage]
  rw [Device.Drops] at h
  rw [readImage_same] at h ⊢
  exact h

/-- The last block has been read. -/
theorem Within.filling (h : Within setup all b (readImage u.dev) u.delivered)
    (hdrops : ¬ u.dev.Drops setup) (hfinal : u.dev.finalBlock = true)
    (hempty : u.dev.blocklen = 0 ∧ u.dev.datalen ≤ PADDING_SIZE) :
    FillingUp setup all u.dev u.delivered := by
  have hscanning := h.scanning
  have hblock := h.final
  have htotal := h.totalOutSize
  have hrest := h.rest
  have hnothing := h.nothing_left (drops_readImage hdrops) (by rw [readImage_same]; exact hempty.1)
    (by rw [readImage_same]; exact hempty.2)
  rw [hnothing] at hrest
  rw [readImage_same] at hscanning hblock htotal
  rw [hfinal] at hblock
  rw [← hblock, if_pos rfl, List.append_nil, List.append_nil] at hrest
  exact ⟨hscanning, hempty.1, hempty.2, hfinal, htotal, 0, Nat.zero_le _,
    by rw [List.replicate_zero, List.append_nil, hrest]⟩

theorem Within.kept (h : Within setup all b u.dev u.delivered) (hgood : u.status = .good) :
    u.Kept setup all := by
  refine .within b ?_ (fun hreading => ?_) hgood
  · rwa [readImage_of_reading h.reading]
  · rw [h.reading] at hreading
    cases hreading

/-- The next block is read. -/
theorem Within.next (hall : ∀ b ∈ all, b.Exact setup)
    (h : Within setup all b (readImage u.dev) u.delivered)
    (hstart : u.dev.reading = false → u.dev.blocklen = b.blocklen)
    (hdrops : ¬ u.dev.Drops setup) (hmore : u.dev.finalBlock = false)
    (hempty : u.dev.blocklen = 0 ∧ u.dev.datalen ≤ PADDING_SIZE)
    (hstep : u.next setup call = some u') :
    u'.Kept setup all ∧ u'.status = .good ∧ u.Nearer setup all call u' := by
  obtain ⟨out, hread, hdelivered⟩ := next_cases hstep
  have hscanning := h.scanning
  have hblock := h.final
  have htotal := h.totalOutSize
  have hblocks := h.blocks
  obtain ⟨c, hc, hlast⟩ := h.someFinal
  have hrest := h.rest
  have hnothing := h.nothing_left (drops_readImage hdrops) (by rw [readImage_same]; exact hempty.1)
    (by rw [readImage_same]; exact hempty.2)
  have hulines : (readImage u.dev).ulines = u.dev.ulines := by
    cases hreading : u.dev.reading with
    | true => rw [readImage_of_reading hreading]
    | false =>
      -- the first block has no lines at all
      have hb := hall b h.mem
      have hlines := hb.lines_le
      rw [← hstart hreading, hempty.1] at hlines
      have hzero : b.vertical = 0 := by
        rcases Nat.mul_eq_zero.mp (Nat.eq_zero_of_le_zero hlines) with hv | hw
        · exact hv
        · exact absurd hw hb.width_pos.ne'
      have hvertical := h.inBlock.vertical
      rw [readImage, if_neg (by rw [hreading]; decide)] at hvertical ⊢
      dsimp only at hvertical ⊢
      rw [hvertical, hzero, Nat.add_zero]
  rw [hnothing, hulines] at hrest
  rw [readImage_same] at hscanning hblock htotal hblocks hc hrest
  rw [hmore] at hblock
  rw [← hblock, if_neg (by decide), List.nil_append] at hrest
  rw [saneRead, if_neg (by rw [hscanning]; decide), if_pos hempty, if_neg (by rw [hmore]; decide)]
    at hread
  cases hbs : u.dev.blocks with
  | nil =>
    rw [hbs, List.mem_singleton] at hc
    rw [hc, ← hblock] at hlast
    cases hlast
  | cons b' bs =>
    rw [hbs] at hread hblocks hc hrest
    have hb' := hall b' (hblocks b' List.mem_cons_self)
    have hfinal : ∃ c ∈ b' :: bs, c.final = true := by
      rcases List.mem_cons.mp hc with heq | hmem
      · rw [heq, ← hblock] at hlast
        cases hlast
      · exact ⟨c, hmem, hlast⟩
    have hwithin : Within setup all b' (readImage (devAcquire setup u.dev b' bs)) u.delivered :=
      within_acquire hb' hscanning htotal hblocks hfinal hrest
    dsimp only at hread
    obtain ⟨hgood, hafter, hrestblocks, hload, -, hmoves⟩ := hwithin.read hb' call.maxlen_pos hread
    rw [← hdelivered] at hafter
    refine ⟨hafter.kept hgood, hgood, fun hfits hts _ => ?_⟩
    have hacquired := acquire_eq hb' u.dev bs
    have haligned : (readImage (devAcquire setup u.dev b' bs)).Aligned := by
      right
      rw [hacquired]
      exact Nat.dvd_zero _
    refine ⟨(hmoves (hfits b' hwithin.mem) hts haligned).1, ?_⟩
    rw [hacquired] at hrestblocks hload
    have hone : (if u'.dev.blocklen = 0 then 0 else 1) ≤ 1 := by split <;> decide
    rw [ScanRun.left, ScanRun.left, hrestblocks, hbs, hdelivered, List.map_cons, List.sum_cons,
      List.length_append]
    have hload' : u'.dev.load ≤ b'.blocklen := hload
    dsimp only
    omega

/-- The block is read on. -/
theorem Within.readOn (hall : ∀ b ∈ all, b.Exact setup)
    (h : Within setup all b (readImage u.dev) u.delivered)
    (hmore : ¬ (u.dev.blocklen = 0 ∧ u.dev.datalen ≤ PADDING_SIZE))
    (hstep : u.next setup call = some u') :
    u'.Kept setup all ∧ u'.status = .good ∧ u.Nearer setup all call u' := by
  obtain ⟨out, hread, hdelivered⟩ := next_cases hstep
  have hscanning := h.scanning
  rw [readImage_same] at hscanning
  rw [saneRead, if_neg (by rw [hscanning]; decide), if_neg hmore] at hread
  obtain ⟨hgood, hafter, hblocks, hload, hblocklen, hmoves⟩ :=
    h.read (hall b h.mem) call.maxlen_pos hread
  rw [← hdelivered] at hafter
  have hnext := hafter.kept hgood
  refine ⟨hnext, hgood, fun hfits hts haligned => ?_⟩
  obtain ⟨haligned', hadvanced⟩ := hmoves (hfits b h.mem) hts (by
    rw [readImage_same]
    exact haligned)
  have hle := hnext.delivered_le.length_le
  rw [readImage_same] at hblocks hload hblocklen hadvanced
  have hload' : u'.dev.load ≤ u.dev.load := hload
  refine ⟨haligned', ?_⟩
  rw [hdelivered, List.length_append] at hle
  rw [ScanRun.left, ScanRun.left, hblocks, hdelivered, List.length_append]
  have hzero : (if u'.dev.blocklen = 0 then 0 else 1) ≤ if u.dev.blocklen = 0 then 0 else 1 := by
    dsimp only at hblocklen
    split_ifs <;> omega
  rcases hadvanced hmore with hout | hless | ⟨hblock, hzero'⟩
  · have := List.length_pos_of_ne_nil hout
    dsimp only
    omega
  · have hless' : u'.dev.load < u.dev.load := hless
    dsimp only
    omega
  · dsimp only at hblock ⊢
    rw [if_pos hzero', if_neg hblock]
    omega

theorem ScanRun.Kept.step (hall : ∀ b ∈ all, b.Exact setup) (h : u.Kept setup all)
    (hstep : u.SafeStep setup call u') :
    u'.Kept setup all ∧ (u'.status = .good → u.status = .good ∧ u.Nearer setup all call u') := by
  obtain ⟨hdrops, hstep⟩ := hstep
  cases h with
  | filling h hgood =>
    obtain ⟨hnext, hnearer⟩ := h.step hstep
    exact ⟨hnext, fun hgood' => ⟨hgood, hnearer hgood'⟩⟩
  | ended hscanning himage heof =>
    obtain ⟨out, hread, hdelivered⟩ := next_cases hstep
    rw [saneRead, if_pos (by rw [hscanning]; decide)] at hread
    injection hread with hstatus hout hdev
    rw [← hout, List.append_nil] at hdelivered
    refine ⟨.ended (by rw [← hdev]; exact hscanning) (hdelivered.trans himage) hstatus.symm,
      fun hgood => ?_⟩
    rw [← hstatus] at hgood
    cases hgood
  | within b h hstart hgood =>
    by_cases hempty : u.dev.blocklen = 0 ∧ u.dev.datalen ≤ PADDING_SIZE
    · cases hfinal : u.dev.finalBlock with
      | true =>
        obtain ⟨hnext, hnearer⟩ := (h.filling hdrops hfinal hempty).step hstep
        exact ⟨hnext, fun hgood' => ⟨hgood, hnearer hgood'⟩⟩
      | false =>
        obtain ⟨hnext, -, hnearer⟩ := h.next hall hstart hdrops hfinal hempty hstep
        exact ⟨hnext, fun _ => ⟨hgood, hnearer⟩⟩
    · obtain ⟨hnext, -, hnearer⟩ := h.readOn hall hempty hstep
      exact ⟨hnext, fun _ => ⟨hgood, hnearer⟩⟩

/-- After so many calls the image is complete. -/
def ScanSetup.callBound (setup : ScanSetup) (bs : List Block) : Nat :=
  (bs.map fun b => b.blocklen + 2).sum + (setup.image bs).length

theorem kept_startScan (hall : ∀ c ∈ b :: bs, c.Exact setup)
    (hfinal : ∃ c ∈ b :: bs, c.final = true) (mem : Nat → SaneByte) :
    (startScan setup mem b bs).Kept setup (b :: bs) ∧ (startScan setup mem b bs).dev.Aligned ∧
      (startScan setup mem b bs).left setup (b :: bs) ≤ setup.callBound (b :: bs) := by
  have hb := hall b List.mem_cons_self
  have hwithin : Within setup (b :: bs) b (readImage (startScan setup mem b bs).dev) [] :=
    within_acquire hb rfl rfl (fun _ => id) hfinal (laterImage_zero hall)
  have hstart : (startScan setup mem b bs).dev.blocklen = b.blocklen ∧
      (startScan setup mem b bs).dev.datalen = 0 ∧ (startScan setup mem b bs).dev.dataoff = 0 ∧
      (startScan setup mem b bs).dev.blocks = bs := by
    rw [startScan, saneStart, devAcquire]
    dsimp only
    rw [if_neg (Nat.not_lt.mpr hb.width_le)]
    exact ⟨rfl, rfl, rfl, rfl⟩
  obtain ⟨hblocklen, hdatalen, hdataoff, hblocks⟩ := hstart
  refine ⟨.within b hwithin (fun _ => hblocklen) rfl, ?_, ?_⟩
  · right
    rw [Device.tail, hdatalen, hdataoff]
    exact Nat.dvd_zero _
  · have hone : (if b.blocklen = 0 then 0 else 1) ≤ 1 := by split <;> decide
    rw [ScanRun.left, ScanSetup.callBound, Device.load, hblocks, hblocklen, hdatalen,
      List.map_cons, List.sum_cons]
    omega

/-- The image that a scan returns. -/
theorem xerox_image (hall : ∀ c ∈ b :: bs, c.Exact setup)
    (hfinal : ∃ c ∈ b :: bs, c.final = true) (mem : Nat → SaneByte) {calls : List ReadCall}
    (h : Run (ScanRun.SafeStep setup) (startScan setup mem b bs) calls u) :
    u.delivered <+: setup.image (b :: bs) ∧ (u.status = .good ∨ u.status = .eof) ∧
      (u.status = .eof → u.delivered = setup.image (b :: bs)) ∧
      ((∀ c ∈ b :: bs, c.Fits setup) →
        (∀ call ∈ calls, ∀ t ∈ call.transfers, USB_BLOCK_SIZE ∣ t) →
        setup.callBound (b :: bs) < calls.length → u.status = .eof) := by
  obtain ⟨hkept, haligned, hleft⟩ := kept_startScan hall hfinal mem
  have hrun := h.history
    (I := fun calls u => u.Kept setup (b :: bs) ∧ (u.status = .good →
      (∀ c ∈ b :: bs, c.Fits setup) →
      (∀ call ∈ calls, ∀ t ∈ call.transfers, USB_BLOCK_SIZE ∣ t) →
      u.dev.Aligned ∧ calls.length + u.left setup (b :: bs) ≤ setup.callBound (b :: bs)))
    ⟨hkept, fun _ _ _ => ⟨haligned, by rwa [List.length_nil, Nat.zero_add]⟩⟩ ?_
  · obtain ⟨hkept, hbound⟩ := hrun
    have hstatus : u.status = .good ∨ u.status = .eof := by
      cases hkept with
      | within b h hstart hgood => exact .inl hgood
      | filling h hgood => exact .inl hgood
      | ended hscanning himage heof => exact .inr heof
    refine ⟨hkept.delivered_le, hstatus, fun heof => ?_, fun hfits hts hlong => ?_⟩
    · cases hkept with
      | within b h hstart hgood => rw [hgood] at heof; cases heof
      | filling h hgood => rw [hgood] at heof; cases heof
      | ended hscanning himage => exact himage
    · refine hstatus.resolve_left fun hgood => ?_
      have := (hbound hgood hfits hts).2
      omega
  · rintro calls u call u' ⟨hkept, hbound⟩ hstep
    obtain ⟨hnext, hnearer⟩ := hkept.step hall hstep
    refine ⟨hnext, fun hgood' hfits hts => ?_⟩
    obtain ⟨hgood, hless⟩ := hnearer hgood'
    obtain ⟨haligned, hle⟩ := hbound hgood hfits fun c hc => hts c (List.mem_append_left _ hc)
    obtain ⟨haligned', hlt⟩ := hless hfits (hts call (List.mem_append_right _ List.mem_cons_self))
      haligned
    refine ⟨haligned', ?_⟩
    rw [List.length_append, List.length_singleton]
    omega

/-! ### Some scans -/

/-- A call with one transfer of a USB block, if there is room for it. -/
def ReadCall.usb (maxlen : Nat) : ReadCall := ⟨maxlen + 1, Nat.succ_pos maxlen, [512]⟩

/-- A line of three pixels in bands, and two bytes of padding. -/
def bandBlock : Block where
  vertical := 1
  horizontal := 3
  blocklen := 11
  blocklen_lt := by decide
  final := true
  data := [1, 2, 3, 11, 12, 13, 21, 22, 23, 0, 0]
  enough := by decide

/-- Two lines of two pixels. -/
def bandScan : ScanSetup := ⟨.rgb24, true, 2, 2⟩

theorem bandBlock_exact : bandBlock.Exact bandScan where
  length_data := rfl
  lines_le := by decide
  padding_le := by decide
  width_pos := by decide
  width_le := by decide
  padding_lt := fun _ => by decide

/-- The line is cut to two pixels, and the second line is white. -/
theorem xerox_image_bands : ∃ u, Run (ScanRun.SafeStep bandScan)
    (startScan bandScan (fun _ => 0) bandBlock []) ([7, 3, 3, 3].map ReadCall.usb) u ∧
    u.status = .eof ∧ u.delivered = bandScan.image [bandBlock] ∧
    bandScan.image [bandBlock] = [1, 11, 21, 2, 12, 22, 255, 255, 255, 255, 255, 255] := by
  obtain ⟨u, hu, hend⟩ := (Option.any_eq_true _ _).mp (show (runAll
    (fun u call => if u.dev.Drops bandScan then none else u.next bandScan call)
    ([7, 3, 3, 3].map ReadCall.usb) (startScan bandScan (fun _ => 0) bandBlock [])).any
      (fun u => u.status = .eof) = true by decide +kernel)
  have heof : u.status = .eof := of_decide_eq_true hend
  have hrun : Run (ScanRun.SafeStep bandScan) (startScan bandScan (fun _ => 0) bandBlock [])
      ([7, 3, 3, 3].map ReadCall.usb) u := by
    refine Run.of_runAll hu fun u call u' h => ?_
    split at h
    · cases h
    · rename_i hdrops
      exact ⟨hdrops, h⟩
  have hall : ∀ c ∈ [bandBlock], c.Exact bandScan := by
    intro c hc
    rw [List.mem_singleton] at hc
    rw [hc]
    exact bandBlock_exact
  obtain ⟨-, -, himage, -⟩ := xerox_image hall ⟨bandBlock, List.mem_cons_self, rfl⟩ _ hrun
  exact ⟨u, hrun, heof, himage heof, by decide +kernel⟩

/-- A gray line of 20 pixels without padding. -/
def grayBlock : Block where
  vertical := 1
  horizontal := 20
  blocklen := 20
  blocklen_lt := by decide
  final := true
  data := List.replicate 20 7
  enough := by decide

def grayScan : ScanSetup := ⟨.gray8, false, 20, 1⟩

theorem grayBlock_exact : grayBlock.Exact grayScan where
  length_data := rfl
  lines_le := by decide
  padding_le := by decide
  width_pos := by decide
  width_le := by decide
  padding_lt := fun h => by cases h

/-- If the first call takes 10 bytes, the other 10 are lost. -/
theorem xerox_image_dropped : grayBlock.Exact grayScan ∧ grayBlock.Fits grayScan ∧
    (∃ u, Run (fun u call u' => u.next grayScan call = some u')
      (startScan grayScan (fun _ => 0) grayBlock []) ([9, 9, 9].map ReadCall.usb) u ∧
      u.status = .eof ∧ u.delivered = List.replicate 10 7 ++ List.replicate 10 255) ∧
    grayScan.image [grayBlock] = List.replicate 20 7 := by
  refine ⟨grayBlock_exact, fun h => (nomatch h), ?_, by decide +kernel⟩
  obtain ⟨u, hu, hend⟩ := (Option.any_eq_true _ _).mp (show (runAll
    (fun u call => u.next grayScan call) ([9, 9, 9].map ReadCall.usb)
    (startScan grayScan (fun _ => 0) grayBlock [])).any (fun u => u.status = .eof ∧
      u.delivered = List.replicate 10 7 ++ List.replicate 10 255) = true by decide +kernel)
  exact ⟨u, Run.of_runAll hu fun _ _ _ h => h, of_decide_eq_true hend⟩

end SaneBackends.XeroxMfp
