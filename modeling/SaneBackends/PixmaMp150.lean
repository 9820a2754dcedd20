import SaneBackends.PixmaMp150Line

/-!
# The blocks of an MP150 scan

`post_process_image_data` and `mp150_fill_buffer` of `backend/pixma_mp150.c`.  The scanner sends
the raw image in blocks; the bytes that do not suffice for a line are carried over to the next
block.
-/

namespace SaneBackends.Pixma

open InPlace LineStages Overwrite Mp150Setup

def IMAGE_BLOCK_SIZE : Nat := 512 * 1024

/-- What `read_image_block` reads: the image bytes and byte 8 of the header. -/
structure ImageBlock where
  bytes : List SaneByte
  info : SaneByte
  length_le : bytes.length ≤ IMAGE_BLOCK_SIZE

/-- The bytes that are allocated for `imgbuf`, behind the line buffer. -/
def Mp150Setup.bufferSize (setup : Mp150Setup) : Nat :=
  IMAGE_BLOCK_SIZE + (2 * setup.calcShifting + 1) * setup.lineSize

/-- The buffers as they have been allocated, with whatever they contain. -/
structure Mp150Buffers (setup : Mp150Setup) where
  imgbuf : List SaneByte
  linebuf : List SaneByte
  length_imgbuf : imgbuf.length = setup.bufferSize
  length_linebuf : linebuf.length = setup.lineSize

/-- The fields of `mp150_t` that change while an image is read. -/
structure Mp150 where
  imgbuf : List SaneByte
  linebuf : List SaneByte
  dataLeftOfs : Nat
  dataLeftLen : Nat
  lastBlock : SaneByte

def Mp150.start {setup : Mp150Setup} (buffers : Mp150Buffers setup) : Mp150 where
  imgbuf := buffers.imgbuf
  linebuf := buffers.linebuf
  dataLeftOfs := 0
  dataLeftLen := 0
  lastBlock := 0

/-- The end of the image, as the last block says. -/
def Mp150.ended (s : Mp150) : Bool := s.lastBlock &&& 0x28 = 0x28

variable (setup : Mp150Setup)

/-- `post_process_image_data`, with `len` bytes in the buffer: the bytes from `rptr` to `rend`, and
    where the bytes are that have not been processed. -/
def postProcessImageData (s : Mp150) (len : Nat) : Option (List SaneByte × Mp150) :=
  let lines := len / setup.lineSize
  if setup.calcShifting < lines then
    let lines := lines - setup.calcShifting
    let sptr := lines * setup.lineSize
    (processLines setup lines ⟨s.imgbuf, s.linebuf, 0, 0⟩).map fun r =>
      (r.mem.take r.cptr, { s with
        imgbuf := r.mem, linebuf := r.linebuf, dataLeftOfs := sptr, dataLeftLen := len - sptr })
  else some ([], { s with dataLeftOfs := 0, dataLeftLen := len })

/-- A turn of the loop of `mp150_fill_buffer`. -/
def readBlock (s : Mp150) (b : ImageBlock) : Option (List SaneByte × Mp150) := do
  let imgbuf ← memmove s.imgbuf 0 s.dataLeftOfs s.dataLeftLen
  let imgbuf ← store imgbuf s.dataLeftLen b.bytes
  postProcessImageData setup { s with imgbuf := imgbuf, lastBlock := b.info &&& 0x38 }
    (s.dataLeftLen + b.bytes.length)

/-- How a call of `mp150_fill_buffer` ends.  It waits if the scanner sends no more blocks; the
    region is empty at the end of the image. -/
inductive FillBuffer where
  | returned (region : List SaneByte) (s : Mp150) (blocks : List ImageBlock)
  | waiting
  | fault

/-- `mp150_fill_buffer`, with the blocks that the scanner is going to send. -/
def mp150FillBuffer : Mp150 → List ImageBlock → FillBuffer
  | s, [] => if s.ended then .returned [] s [] else .waiting
  | s, b :: blocks =>
    if s.ended then .returned [] s (b :: blocks)
    else
      match readBlock setup s b with
      | none => .fault
      | some ([], s) => mp150FillBuffer s blocks
      | some (region, s) => .returned region s blocks

/-- The regions that up to `n` calls return, put together. -/
def regions : Nat → Mp150 → List ImageBlock → Option (List SaneByte)
  | 0, _, _ => some []
  | n + 1, s, blocks =>
    match mp150FillBuffer setup s blocks with
    | .returned [] _ _ => some []
    | .returned region s blocks => (regions n s blocks).map (region ++ ·)
    | .waiting => some []
    | .fault => none

/-- The raw image: the blocks up to the one that ends it. -/
def rawImage : List ImageBlock → List SaneByte
  | [] => []
  | b :: blocks => b.bytes ++ if b.info &&& 0x28 = 0x28 then [] else rawImage blocks

/-! ### A block -/

variable {setup}

theorem postProcessImageData_eq (hsteady : setup.Steady) {s : Mp150} {len : Nat}
    (hlen : len ≤ s.imgbuf.length) (hbuf : s.linebuf.length = setup.lineSize)
    (hroom : 512 ≤ s.imgbuf.length) :
    let data := s.imgbuf.take len
    (¬ setup.Contrasts (setup.lineStage.count data) data ∧ postProcessImageData setup s len = none)
    ∨ setup.Contrasts (setup.lineStage.count data) data ∧ ∃ s', postProcessImageData setup s len
        = some (setup.lineStage.whole data, s') ∧ s'.imgbuf.length = s.imgbuf.length ∧
      s'.linebuf.length = setup.lineSize ∧ s'.dataLeftOfs + s'.dataLeftLen = len ∧
      stretch s'.imgbuf s'.dataLeftOfs s'.dataLeftLen
        = data.drop (setup.lineStage.count data * setup.lineSize) ∧
      s'.dataLeftLen < (setup.calcShifting + 1) * setup.lineSize ∧
      s'.lastBlock = s.lastBlock := by
  intro data
  have hdata : data.length = len := List.length_take_of_le hlen
  have hcount : setup.lineStage.count data = len / setup.lineSize - setup.calcShifting := by
    rw [LineStage.count, hdata]
    rfl
  have hlt : len < (len / setup.lineSize + 1) * setup.lineSize := by
    rw [Nat.mul_comm]
    exact Nat.lt_mul_div_succ len setup.lineSize_pos
  by_cases hmore : setup.calcShifting < len / setup.lineSize
  · have hpost : postProcessImageData setup s len = (processLines setup
        (setup.lineStage.count data) ⟨s.imgbuf, s.linebuf, 0, 0⟩).map fun r =>
        (r.mem.take r.cptr, { s with
          imgbuf := r.mem, linebuf := r.linebuf
          dataLeftOfs := setup.lineStage.count data * setup.lineSize
          dataLeftLen := len - setup.lineStage.count data * setup.lineSize }) := by
      rw [postProcessImageData, if_pos hmore, hcount]
    have hdiv : (setup.lineStage.count data + setup.calcShifting) * setup.lineSize ≤ len := by
      rw [hcount, Nat.sub_add_cancel hmore.le]
      exact Nat.div_mul_le_self _ _
    have hall : s.imgbuf = data ++ s.imgbuf.drop len := (List.take_append_drop len _).symm
    have henough := setup.lineStage.enough_count data
    have hlines := processLines_eq hsteady (s := ⟨s.imgbuf, s.linebuf, 0, 0⟩) (hdiv.trans hlen)
      hbuf rfl rfl hroom
    generalize hk : setup.lineStage.count data = k at *
    dsimp only at hlines
    have hsame : setup.Contrasts k s.imgbuf ↔ setup.Contrasts k data := by
      conv_lhs => rw [hall]
      exact LineStage.allWindows_append henough _
    rw [hsame] at hlines
    rcases hlines with ⟨hflat, hnone⟩ | ⟨hcontrasts, r, hrun, hdone⟩
    · left
      rw [hpost, hnone]
      exact ⟨hflat, rfl⟩
    · right
      have hready : r.mem.take r.cptr = setup.lineStage.whole data := by
        rw [hdone.ready]
        dsimp only
        rw [hall, LineStage.lines_append henough, ← hk]
        rfl
      rw [hrun, Option.map_some, hready] at hpost
      refine ⟨hcontrasts, _, hpost, hdone.length_mem, hdone.length_linebuf, ?_, ?_, ?_, rfl⟩
      · dsimp only
        have := Nat.mul_le_mul_right setup.lineSize (Nat.le_add_right k setup.calcShifting)
        omega
      · dsimp only
        rw [stretch_of_drop hdone.behind le_rfl]
        exact List.drop_take.symm
      · dsimp only
        have hsum : (len / setup.lineSize + 1) * setup.lineSize
            = k * setup.lineSize + (setup.calcShifting + 1) * setup.lineSize := by
          rw [← Nat.add_mul]
          congr 1
          omega
        have hpos : 0 < (setup.calcShifting + 1) * setup.lineSize :=
          Nat.mul_pos (Nat.succ_pos _) setup.lineSize_pos
        rw [hsum] at hlt
        omega
  · right
    have hzero : setup.lineStage.count data = 0 := by omega
    have hpost : postProcessImageData setup s len
        = some ([], { s with dataLeftOfs := 0, dataLeftLen := len }) := if_neg hmore
    have hwhole : setup.lineStage.whole data = [] := by
      have : setup.lineStage.whole data = setup.lineStage.lines (setup.lineStage.count data) data :=
        rfl
      rw [this, hzero]
      rfl
    rw [hzero, hpost, hwhole]
    refine ⟨fun y hy => absurd hy (Nat.not_lt_zero y), _, rfl, rfl, hbuf, Nat.zero_add len, ?_, ?_,
      rfl⟩
    · rw [Nat.zero_mul]
      rfl
    · dsimp only
      exact hlt.trans_le (Nat.mul_le_mul_right _ (by omega))

/-- What the buffer holds when `raw` has been received: the bytes that have not been processed. -/
structure Mp150.Holds (setup : Mp150Setup) (s : Mp150) (raw : List SaneByte) : Prop where
  length_imgbuf : s.imgbuf.length = setup.bufferSize
  length_linebuf : s.linebuf.length = setup.lineSize
  fits : s.dataLeftOfs + s.dataLeftLen ≤ s.imgbuf.length
  left : stretch s.imgbuf s.dataLeftOfs s.dataLeftLen
    = raw.drop (setup.lineStage.count raw * setup.lineSize)
  left_lt : s.dataLeftLen < (setup.calcShifting + 1) * setup.lineSize
  contrasts : setup.Contrasts (setup.lineStage.count raw) raw

/-- A block brings the lines that it completes. -/
theorem Mp150.Holds.block (hsteady : setup.Steady) {s : Mp150} {raw : List SaneByte}
    (h : s.Holds setup raw) (b : ImageBlock) :
    let raw' := raw ++ b.bytes
    (¬ setup.Contrasts (setup.lineStage.count raw') raw' ∧ readBlock setup s b = none) ∨
    ∃ region s', readBlock setup s b = some (region, s') ∧ s'.Holds setup raw' ∧
      setup.lineStage.whole raw' = setup.lineStage.whole raw ++ region ∧
      s'.lastBlock = b.info &&& 0x38 := by
  intro raw'
  have hsize := h.length_imgbuf
  have hblock := b.length_le
  have hline := setup.lineSize_pos
  have hleft := h.left_lt
  have hroom : setup.bufferSize = IMAGE_BLOCK_SIZE + setup.calcShifting * setup.lineSize
      + (setup.calcShifting + 1) * setup.lineSize := by
    rw [bufferSize]
    ring
  have hmoved := h.fits
  -- the bytes that are left go to the beginning, and the block behind them
  have hmem : (stretch s.imgbuf s.dataLeftOfs s.dataLeftLen).length = s.dataLeftLen :=
    length_stretch hmoved
  have hmove := @memmove_eq _ s.imgbuf 0 s.dataLeftOfs s.dataLeftLen (by omega) hmoved
  have hlen₁ : (overwrite s.imgbuf 0 (stretch s.imgbuf s.dataLeftOfs s.dataLeftLen)).length
      = setup.bufferSize := by rw [length_overwrite (by omega), hsize]
  have htake₁ : (overwrite s.imgbuf 0 (stretch s.imgbuf s.dataLeftOfs s.dataLeftLen)).take
      s.dataLeftLen = stretch s.imgbuf s.dataLeftOfs s.dataLeftLen := by
    have := take_overwrite_zero s.imgbuf (stretch s.imgbuf s.dataLeftOfs s.dataLeftLen)
    rwa [hmem] at this
  generalize overwrite s.imgbuf 0 (stretch s.imgbuf s.dataLeftOfs s.dataLeftLen) = mem₁
    at hmove hlen₁ htake₁
  have hstore := @store_eq _ mem₁ s.dataLeftLen b.bytes (by omega)
  have hlen₂ : (overwrite mem₁ s.dataLeftLen b.bytes).length = setup.bufferSize := by
    rw [length_overwrite (by omega), hlen₁]
  have hdata : (overwrite mem₁ s.dataLeftLen b.bytes).take (s.dataLeftLen + b.bytes.length)
      = raw'.drop (setup.lineStage.count raw * setup.lineSize) := by
    have hused : setup.lineStage.count raw * setup.lineSize ≤ raw.length := by
      rcases setup.lineStage.enough_count raw with h0 | hle
      · rw [h0, Nat.zero_mul]
        exact Nat.zero_le _
      · exact (Nat.mul_le_mul_right _ (Nat.le_add_right _ _)).trans hle
    rw [take_overwrite (by omega), htake₁, h.left, List.drop_append_of_le_length hused]
  have hrun : readBlock setup s b = postProcessImageData setup
      { s with imgbuf := overwrite mem₁ s.dataLeftLen b.bytes, lastBlock := b.info &&& 0x38 }
      (s.dataLeftLen + b.bytes.length) := by
    rw [readBlock, hmove]
    simp only [Option.bind_eq_bind, Option.bind_some, hstore]
  generalize overwrite mem₁ s.dataLeftLen b.bytes = mem₂ at hlen₂ hdata hrun
  have hpost := @postProcessImageData_eq setup hsteady
    { s with imgbuf := mem₂, lastBlock := b.info &&& 0x38 } (s.dataLeftLen + b.bytes.length)
    (by dsimp only; omega) h.length_linebuf
    (by dsimp only; rw [hlen₂, bufferSize, IMAGE_BLOCK_SIZE]; omega)
  dsimp only at hpost
  rw [hdata, ← hrun] at hpost
  have hcount := @LineStage.count_append _ setup.lineStage raw b.bytes
  have hwhole := @LineStage.whole_append _ setup.lineStage raw b.bytes
  have hwindows := @LineStage.allWindows_count _ setup.lineStage setup.Contrast raw b.bytes
  rcases hpost with ⟨hflat, hnone⟩ |
    ⟨hcontrasts, s', hsome, hlen', hbuf', hsum, hleft', hlt', hlast⟩
  · exact .inl ⟨fun hall => hflat (hwindows.mp hall).2, hnone⟩
  · right
    refine ⟨_, s', hsome, ⟨hlen'.trans hlen₂, hbuf', ?_, ?_, hlt', hwindows.mpr ⟨h.contrasts,
      hcontrasts⟩⟩, hwhole, hlast⟩
    · rw [hsum, hlen', hlen₂]
      omega
    · rw [hleft', List.drop_drop, ← Nat.add_mul]
      congr 2
      exact hcount.symm

/-! ### A scan -/

theorem Mp150.holds_start (buffers : Mp150Buffers setup) :
    (Mp150.start buffers).Holds setup [] where
  length_imgbuf := buffers.length_imgbuf
  length_linebuf := buffers.length_linebuf
  fits := Nat.zero_le _
  left := by
    rw [List.drop_nil]
    rfl
  left_lt := Nat.mul_pos (Nat.succ_pos _) setup.lineSize_pos
  contrasts := by
    intro y hy
    rw [LineStage.count, List.length_nil, Nat.zero_div, Nat.zero_sub] at hy
    exact absurd hy (Nat.not_lt_zero y)

/-- What is still going to be received. -/
def Mp150.remaining (s : Mp150) (blocks : List ImageBlock) : List SaneByte :=
  if s.ended then [] else rawImage blocks

theorem Mp150.remaining_cons {s s' : Mp150} {b : ImageBlock} {blocks : List ImageBlock}
    (hended : ¬ s.ended = true) (h : s'.lastBlock = b.info &&& 0x38) :
    s.remaining (b :: blocks) = b.bytes ++ s'.remaining blocks := by
  have hmask : s'.ended = decide (b.info &&& 0x28 = 0x28) := by
    have : (0x38 : SaneByte) &&& 0x28 = 0x28 := by decide
    rw [ended, h, BitVec.and_assoc, this]
  rw [remaining, if_neg hended, rawImage, remaining, hmask]
  simp only [decide_eq_true_eq]

/-- How a call ends when `raw` has been received. -/
theorem Mp150.Holds.call (hsteady : setup.Steady) {s : Mp150} {raw : List SaneByte}
    (h : s.Holds setup raw) (blocks : List ImageBlock) :
    let all := raw ++ s.remaining blocks
    (¬ setup.Contrasts (setup.lineStage.count all) all ∧
      mp150FillBuffer setup s blocks = .fault) ∨
    (setup.Contrasts (setup.lineStage.count all) all ∧
      setup.lineStage.whole all = setup.lineStage.whole raw ∧
      ((∃ s' blocks', mp150FillBuffer setup s blocks = .returned [] s' blocks') ∨
        mp150FillBuffer setup s blocks = .waiting)) ∨
    ∃ b region s' blocks' raw',
      mp150FillBuffer setup s blocks = .returned (b :: region) s' blocks' ∧
      s'.Holds setup raw' ∧ raw' ++ s'.remaining blocks' = all ∧
      setup.lineStage.whole raw' = setup.lineStage.whole raw ++ b :: region ∧
      blocks'.length < blocks.length := by
  induction blocks generalizing s raw with
  | nil =>
    intro all
    have hall : all = raw := by
      dsimp only [all]
      rw [remaining, rawImage, ite_self, List.append_nil]
    right; left
    rw [hall]
    refine ⟨h.contrasts, rfl, ?_⟩
    rw [mp150FillBuffer]
    split
    · exact .inl ⟨s, [], rfl⟩
    · exact .inr rfl
  | cons b blocks ih =>
    intro all
    by_cases hended : s.ended = true
    · have hall : all = raw := by
        dsimp only [all]
        rw [remaining, if_pos hended, List.append_nil]
      right; left
      rw [hall]
      refine ⟨h.contrasts, rfl, .inl ⟨s, b :: blocks, ?_⟩⟩
      rw [mp150FillBuffer, if_pos hended]
    · rcases h.block hsteady b with ⟨hflat, hnone⟩ | ⟨region, s', hsome, hholds, hwhole, hlast⟩
      · left
        constructor
        · intro hcontrasts
          have hsplit : all = raw ++ b.bytes ++ if b.info &&& 0x28 = 0x28 then []
              else rawImage blocks := by
            dsimp only [all]
            rw [remaining, if_neg hended, rawImage, List.append_assoc]
          rw [hsplit] at hcontrasts
          exact hflat (LineStage.allWindows_count _ _ |>.mp hcontrasts).1
        · rw [mp150FillBuffer, if_neg hended, hnone]
      · have hall : all = raw ++ b.bytes ++ s'.remaining blocks := by
          dsimp only [all]
          rw [remaining_cons hended hlast, List.append_assoc]
        cases region with
        | nil =>
          have hmore := ih hholds
          rw [List.append_nil] at hwhole
          dsimp only at hmore
          rw [← hall, hwhole] at hmore
          have hrun : mp150FillBuffer setup s (b :: blocks) = mp150FillBuffer setup s' blocks := by
            conv_lhs => rw [mp150FillBuffer, if_neg hended, hsome]
          rw [hrun]
          rcases hmore with hfault | hend | ⟨c, region, s'', blocks', raw', hret, hrest, hless⟩
          · exact .inl hfault
          · exact .inr (.inl hend)
          · right; right
            refine ⟨c, region, s'', blocks', raw', hret, hrest, hless.1, hless.2.1, ?_⟩
            exact hless.2.2.trans (Nat.lt_succ_self _)
        | cons c region =>
          right; right
          refine ⟨c, region, s', blocks, raw ++ b.bytes, ?_, hholds, hall.symm, hwhole,
            Nat.lt_succ_self _⟩
          rw [mp150FillBuffer, if_neg hended, hsome]

/-- The regions of `n` calls are a part of the image, and all of it if there are enough calls. -/
theorem Mp150.Holds.calls (hsteady : setup.Steady) {s : Mp150} {raw : List SaneByte}
    (h : s.Holds setup raw) (n : Nat) (blocks : List ImageBlock) :
    let all := raw ++ s.remaining blocks
    (setup.Contrasts (setup.lineStage.count all) all → ∃ image,
      regions setup n s blocks = some image ∧
      setup.lineStage.whole raw ++ image <+: setup.lineStage.whole all ∧
      (blocks.length < n → setup.lineStage.whole raw ++ image = setup.lineStage.whole all)) ∧
    (¬ setup.Contrasts (setup.lineStage.count all) all → blocks.length < n →
      regions setup n s blocks = none) := by
  induction n generalizing s raw blocks with
  | zero =>
    intro all
    refine ⟨fun _ => ⟨[], rfl, ?_, fun h => absurd h (Nat.not_lt_zero _)⟩,
      fun _ h => absurd h (Nat.not_lt_zero _)⟩
    rw [List.append_nil]
    exact LineStage.whole_mono (List.prefix_append _ _)
  | succ n ih =>
    intro all
    rcases h.call hsteady blocks with ⟨hflat, hfault⟩ | ⟨hcontrasts, hwhole, hend⟩ |
      ⟨b, region, s', blocks', raw', hret, hholds, hall, hwhole, hless⟩
    · refine ⟨fun hc => absurd hc hflat, fun _ _ => ?_⟩
      rw [regions, hfault]
    · refine ⟨fun _ => ⟨[], ?_, ?_, fun _ => ?_⟩, fun hflat => absurd hcontrasts hflat⟩
      · rcases hend with ⟨s', blocks', hret⟩ | hwait
        · rw [regions, hret]
        · rw [regions, hwait]
      · rw [List.append_nil, hwhole]
      · rw [List.append_nil, hwhole]
    · have hmore := ih hholds blocks'
      dsimp only at hmore
      rw [hall] at hmore
      have hrun : regions setup (n + 1) s blocks
          = (regions setup n s' blocks').map (b :: region ++ ·) := by
        rw [regions, hret]
      rw [hrun]
      constructor
      · intro hcontrasts
        obtain ⟨image, himage, hprefix, hwhole'⟩ := hmore.1 hcontrasts
        rw [hwhole, List.append_assoc] at hprefix hwhole'
        exact ⟨b :: region ++ image, by rw [himage]; rfl, hprefix, fun hn => hwhole' (by omega)⟩
      · intro hflat hn
        rw [hmore.2 hflat (by omega)]
        rfl

/-- The lines of the whole image have some contrast, as far as they are black and white. -/
def ImageContrast (setup : Mp150Setup) (raw : List SaneByte) : Prop :=
  setup.Contrasts (setup.lineStage.count raw) raw

instance (setup : Mp150Setup) (raw : List SaneByte) : Decidable (ImageContrast setup raw) :=
  inferInstanceAs (Decidable (setup.Contrasts _ _))

/-- However the raw image is cut into blocks, the regions make up the converted lines of the
    raw image, and no byte outside the buffers is accessed: if and only if no black and white
    line is without contrast. -/
theorem mp150_block_independent (hsteady : setup.Steady) (buffers : Mp150Buffers setup)
    (blocks : List ImageBlock) :
    (∀ n, blocks.length < n →
      (regions setup n (.start buffers) blocks = some (setup.lineStage.whole (rawImage blocks)) ↔
        ImageContrast setup (rawImage blocks))) ∧
    (ImageContrast setup (rawImage blocks) → ∀ n, ∃ image,
      regions setup n (.start buffers) blocks = some image ∧
      image <+: setup.lineStage.whole (rawImage blocks)) := by
  have hstart : (Mp150.start buffers).remaining blocks = rawImage blocks := by
    have hended : ¬ (0 : SaneByte) &&& 0x28 = 0x28 := by decide
    rw [Mp150.remaining, Mp150.ended, Mp150.start]
    simp only [hended, decide_false, Bool.false_eq_true, if_false]
  have hempty : setup.lineStage.whole ([] : List SaneByte) = [] := by
    rw [LineStage.whole, List.length_nil, Nat.zero_div, Nat.zero_sub]
    rfl
  have hcalls := fun n => (Mp150.holds_start buffers).calls hsteady n blocks
  simp only [hempty, List.nil_append, hstart] at hcalls
  constructor
  · intro n hn
    constructor
    · intro himage
      by_contra hflat
      rw [(hcalls n).2 hflat hn] at himage
      cases himage
    · intro hcontrast
      obtain ⟨image, himage, -, hwhole⟩ := (hcalls n).1 hcontrast
      rw [himage, hwhole hn]
  · intro hcontrast n
    obtain ⟨image, himage, hprefix, -⟩ := (hcalls n).1 hcontrast
    exact ⟨image, himage, hprefix⟩

theorem one_channel : (1 : Nat) = 1 ∨ (1 : Nat) = 3 := .inl rfl

/-- A scan of an MP160 with 600 dpi: 16 black and white pixels from the fourth on, of raw lines
    of 32 pixels. -/
def mp160Lineart : Mp150Setup where
  xdpi := 600
  threshold := 127
  thresholdCurve := 0
  lineartLut _ := 0
  pid := MP160_PID
  ccd := false
  source := .flatbed
  channels := 1
  softwareLineart := true
  x := 4
  w := 16
  ydpi := 600
  w_pos := by decide
  channels_cases := one_channel
  lineart_cases := by decide
  tpu_ccd := by decide
  xdpi_eq := ⟨3, by decide, rfl⟩

/-- The buffers, filled with zero bytes. -/
def zeroBuffers (setup : Mp150Setup) : Mp150Buffers setup where
  imgbuf := List.replicate setup.bufferSize 0
  linebuf := List.replicate setup.lineSize 0
  length_imgbuf := List.length_replicate
  length_linebuf := List.length_replicate

/-- A raw image in two blocks, the first of which ends in the middle of a line. -/
def twoBlocks (line more : List SaneByte) (h : (line ++ more.take 9).length ≤ IMAGE_BLOCK_SIZE)
    (h' : (more.drop 9).length ≤ IMAGE_BLOCK_SIZE) : List ImageBlock :=
  [⟨line ++ more.take 9, 0, h⟩, ⟨more.drop 9, 0x28, h'⟩]

/-- A line that gets brighter from the left to the right. -/
def brighter : List SaneByte := (List.range 32).map fun i => BitVec.ofNat 8 (8 * i)

theorem mp150_block_independent_small :
    let blocks := twoBlocks brighter brighter.reverse (by decide) (by decide)
    mp160Lineart.Steady ∧
      regions mp160Lineart 3 (.start (zeroBuffers mp160Lineart)) blocks
        = some [0xff, 0x00, 0x00, 0x03] := by
  intro blocks
  have hsteady : mp160Lineart.Steady := fun _ => .inl rfl
  have hcontrast : ImageContrast mp160Lineart (rawImage blocks) := by decide +kernel
  have hwhole : mp160Lineart.lineStage.whole (rawImage blocks) = [0xff, 0x00, 0x00, 0x03] := by
    decide +kernel
  refine ⟨hsteady, ?_⟩
  rw [← hwhole]
  exact ((mp150_block_independent hsteady (zeroBuffers mp160Lineart) blocks).1 3
    (by decide)).mpr hcontrast

/-- An image of one line whose pixels all have the gray value 80: there is no contrast, and the
    code divides by zero. -/
theorem mp150_flat_line :
    let blocks : List ImageBlock := [⟨List.replicate 32 80, 0x28, by decide⟩]
    regions mp160Lineart 2 (.start (zeroBuffers mp160Lineart)) blocks = none ∧
      mp160Lineart.lineStage.count (rawImage blocks) = 1 := by
  intro blocks
  have hsteady : mp160Lineart.Steady := fun _ => .inl rfl
  have hflat : ¬ ImageContrast mp160Lineart (rawImage blocks) := by decide +kernel
  refine ⟨?_, by decide +kernel⟩
  exact ((Mp150.holds_start (zeroBuffers mp160Lineart)).calls hsteady 2 blocks).2 hflat (by decide)

end SaneBackends.Pixma
