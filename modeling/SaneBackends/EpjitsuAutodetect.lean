import SaneBackends.EpjitsuRead
import SaneBackends.LabelledRun
import Mathlib.Algebra.Order.Ring.Int
import Mathlib.Tactic.Ring

/-!
# Scans of unknown length of the Fujitsu S300

A scan from the document feeder with page height 0.  It is finished when the bytes received are
as many as the scan has, and a report of the scanner may make the scan shorter.  As long as no
report names fewer lines than have been received, the count does not step over the total and the
scan comes to an end.
-/

namespace SaneBackends.Epjitsu

open LabelledRun

variable {s : Scanner} {c : Call} {side : Side} {p q : Page} {block : Transfer}

/-! ### What one call does -/

/-- The size of the block that is being read, or of the one that the next call starts. -/
def Scanner.blockBytes (s : Scanner) : Int :=
  if s.block.rxBytes ≠ 0 then s.block.totalBytes
  else min s.block.totalBytes (s.fullscan.totalBytes - s.fullscan.rxBytes)

/-- The scanner when `read_from_scanner` is called. -/
def Scanner.shrunk (s : Scanner) : Scanner :=
  { s with block := { s.block with totalBytes := s.blockBytes } }

/-- The block with its final size and so many bytes. -/
def Scanner.withBlock (s : Scanner) (rx : Int) : Scanner :=
  { s with block := { s.block with totalBytes := s.blockBytes, rxBytes := rx, done := false } }

/-- All exchanges of the call succeed, and the device has something to send. -/
structure Call.Responsive (c : Call) : Prop where
  d3 : c.d3 = .ok 6
  read : ∃ n, 0 < n ∧ c.read = .ok n
  report : ∃ report, c.report = .ok report

/-- The call brings the last bytes of a block. -/
structure Scanner.Completes (s : Scanner) (c : Call) : Prop where
  d3 : s.block.rxBytes = 0 → c.d3 = .ok 6
  onePass : s.shrunk.block.remainBlock ≤ MAX_IMG_PASS
  read : ∃ n, s.shrunk.block.remainBlock ≤ n ∧ c.read = .ok n

theorem shrinkBlock_eq (h : s.block.rxBytes = 0) : s.shrinkBlock = s.shrunk := by
  have hbytes : s.blockBytes =
      min s.block.totalBytes (s.fullscan.totalBytes - s.fullscan.rxBytes) :=
    if_neg (not_not.mpr h)
  simp only [Scanner.shrinkBlock, Scanner.shrunk, hbytes]
  split
  next hlt => rw [min_eq_right hlt.le]
  next hle => rw [min_eq_left (not_lt.mp hle)]

theorem shrunk_of_ne (h : s.block.rxBytes ≠ 0) : s.shrunk = s := by
  simp only [Scanner.shrunk, Scanner.blockBytes, if_pos h]

theorem withBlock_rxBytes (h : s.block.done = false) : s.withBlock s.block.rxBytes = s.shrunk := by
  rw [Scanner.withBlock, Scanner.shrunk, ← h]

theorem startBlock_cases (hm : s.model = .s300) (c : Call) :
    ((s.block.rxBytes = 0 → c.d3 = .ok 6) ∧ s.startBlock c = (.good, s.shrunk)) ∨
    (s.block.rxBytes = 0 ∧ c.d3 ≠ .ok 6 ∧ ∃ e, e ≠ .good ∧ s.startBlock c = (e, s.shrunk)) := by
  by_cases hrx : s.block.rxBytes = 0
  · have hm' : s.shrunk.model = .s300 := hm
    simp only [Scanner.startBlock, hrx, ne_eq, not_true_eq_false, if_false, shrinkBlock_eq hrx, hm']
    rcases hd : c.d3 with e | stat
    · exact Or.inr ⟨trivial, nofun, e.val, e.property, rfl⟩
    · by_cases h6 : stat = 6
      · subst h6
        exact Or.inl ⟨fun _ => rfl, by simp⟩
      · refine Or.inr ⟨trivial, ?_, .ioError, nofun, if_pos h6⟩
        intro hok
        cases hok
        exact h6 rfl
  · left
    refine ⟨fun h => absurd h hrx, ?_⟩
    rw [Scanner.startBlock, if_pos hrx, shrunk_of_ne hrx]

theorem readFromScanner_cases (hpos : 0 < block.remainBlock) (c : Call) :
    ((∀ n, 0 < n → c.read ≠ .ok n) ∧
      ∃ e, e ≠ .good ∧ readFromScanner block c.read = (e, block)) ∨
    (¬ (block.remainBlock ≤ MAX_IMG_PASS ∧ ∃ n, block.remainBlock ≤ n ∧ c.read = .ok n) ∧
      ∃ n : Nat, 0 < n ∧ n < block.remainBlock ∧
      readFromScanner block c.read = (.good, { block with rxBytes := block.rxBytes + n })) ∨
    (block.remainBlock ≤ MAX_IMG_PASS ∧ (∃ n, block.remainBlock ≤ n ∧ c.read = .ok n) ∧
      readFromScanner block c.read = (.good,
        { block with rxBytes := block.rxBytes + block.remainBlock - 8, done := true })) := by
  have hle : block.asked ≤ block.remainBlock := Nat.min_le_right _ _
  have hasked : block.asked ≠ 0 := by
    have hmax : 0 < MAX_IMG_PASS := by decide
    have hmin := Nat.lt_min.mpr ⟨hmax, hpos⟩
    exact Nat.pos_iff_ne_zero.mp hmin
  simp only [readFromScanner, hasked, if_false]
  rcases hr : c.read with e | ready
  · left
    exact ⟨fun _ _ => nofun, e.val, e.property, rfl⟩
  · dsimp only
    by_cases h0 : min ready block.asked = 0
    · left
      refine ⟨?_, .eof, nofun, by rw [if_pos h0]⟩
      intro n hn hread
      cases hread
      omega
    · right
      rw [if_neg h0]
      by_cases hall : min ready block.asked = block.remainBlock
      · right
        rw [if_pos hall, hall]
        refine ⟨?_, ⟨ready, ?_, rfl⟩, rfl⟩
        · have hasked' : block.remainBlock ≤ block.asked := hall ▸ Nat.min_le_right _ _
          exact hasked'.trans (Nat.min_le_left _ _)
        · exact hall ▸ Nat.min_le_left _ _
      · left
        rw [if_neg hall]
        refine ⟨?_, _, Nat.pos_of_ne_zero h0, by omega, rfl⟩
        rintro ⟨hone, n, hn, hread⟩
        cases hread
        apply hall
        rw [Transfer.asked, min_eq_right hone, min_eq_right hn]

theorem endBlock_error {e : Failure} (hm : s.model = .s300) (hr : c.report = .error e) :
    s.endBlock c = (e.val, { s with block := { s.block with done := false } }) := by
  simp only [Scanner.endBlock, hm, hr]

theorem endBlock_ok {report : SaneByte × SaneByte} (hm : s.model = .s300)
    (hr : c.report = .ok report) :
    s.endBlock c = (.good, (({ s with block := { s.block with done := false } } :
      Scanner).copyBlock.countBlock.autodetect report).nextBlock) := by
  simp only [Scanner.endBlock, hm, hr]

/-- A call fails, brings a part of a block, or brings the last part; the report that follows the
    last part may fail to come. -/
theorem acquire_cases (hm : s.model = .s300) (hdone : s.block.done = false)
    (hpos : 0 < s.shrunk.block.remainBlock) (c : Call) :
    (¬ s.Completes c ∧ ¬ c.Responsive ∧ ∃ e, e ≠ .good ∧
      s.acquire c = (e, s.withBlock s.block.rxBytes)) ∨
    (¬ s.Completes c ∧ ∃ n : Nat, 0 < n ∧ n < s.shrunk.block.remainBlock ∧
      s.acquire c = (.good, s.withBlock (s.block.rxBytes + n))) ∨
    ((∀ report, c.report ≠ .ok report) ∧ ∃ e, e ≠ .good ∧
      s.acquire c = (e, s.withBlock (s.block.rxBytes + s.shrunk.block.remainBlock - 8))) ∨
    (s.Completes c ∧ ∃ report, c.report = .ok report ∧ s.acquire c =
      (.good, ((s.withBlock (s.block.rxBytes + s.shrunk.block.remainBlock - 8)).copyBlock.countBlock
        |>.autodetect report).nextBlock)) := by
  have hshrunk : s.shrunk.block.done = false := hdone
  rcases startBlock_cases hm c with ⟨hd3, hstart⟩ | ⟨hrx, hd3, e, he, hstart⟩
  · rcases readFromScanner_cases hpos c with
      ⟨hfail, e, he, hread⟩ | ⟨hnot, n, hn, hlt, hread⟩ | ⟨hone, hready, hread⟩
    · left
      refine ⟨?_, ?_, e, he, ?_⟩
      · intro h
        obtain ⟨n, hn, hok⟩ := h.read
        exact hfail n (hpos.trans_le hn) hok
      · intro h
        obtain ⟨n, hn, hok⟩ := h.read
        exact hfail n hn hok
      · rw [withBlock_rxBytes hdone]
        simp only [Scanner.acquire, hstart, hread]
    · right; left
      refine ⟨fun h => hnot ⟨h.onePass, h.read⟩, n, hn, hlt, ?_⟩
      simp only [Scanner.acquire, hstart, hread, hshrunk, if_false, Bool.false_eq_true]
      rw [Scanner.withBlock, ← hdone]
      rfl
    · right; right
      have hcompletes : s.Completes c := ⟨hd3, hone, hready⟩
      rcases hr : c.report with e | report
      · left
        refine ⟨fun _ => nofun, e.val, e.property, ?_⟩
        simp only [Scanner.acquire, hstart, hread, if_true]
        exact endBlock_error hm hr
      · right
        refine ⟨hcompletes, report, rfl, ?_⟩
        simp only [Scanner.acquire, hstart, hread, if_true]
        exact endBlock_ok hm hr
  · left
    refine ⟨fun h => hd3 (h.d3 hrx), fun h => hd3 h.d3, e, he, ?_⟩
    rw [withBlock_rxBytes hdone]
    simp only [Scanner.acquire, hstart]

/-! ### The pages -/

@[simp] theorem page_setPage (s : Scanner) (side : Side) (p : Page) :
    (s.setPage side p).page side = p := by
  cases side <;> rfl

theorem page_setPage_of_ne {side' : Side} (h : side' ≠ side) (s : Scanner) (p : Page) :
    (s.setPage side p).page side' = s.page side' := by
  cases side <;> cases side' <;> first | rfl | exact absurd rfl h

theorem setPage_side (s : Scanner) (side : Side) (p : Page) : (s.setPage side p).side = s.side := by
  cases side <;> rfl

/-- The sides of the sheet that a source scans. -/
def Source.Covers : Source → Side → Prop
  | .flatbed, side | .adfFront, side => side = .front
  | .adfBack, side => side = .back
  | .adfDuplex, _ => True

/-- More bytes have been scanned for a page. -/
def Page.Grows (p q : Page) : Prop :=
  ∃ n : Int, 0 < n ∧ q = { p with bytesScanned := p.bytesScanned + n }

theorem foldl_periodicRow (s : Scanner) (rows : List Nat) (hw : 0 ≤ p.widthBytes) (offset : Int) :
    ∃ n : Int, 0 ≤ n ∧ (rows.foldl (periodicRow s) (p, offset)).1 =
      { p with bytesScanned := p.bytesScanned + n } := by
  induction rows generalizing p offset with
  | nil => exact ⟨0, le_refl _, by simp⟩
  | cons i rows ih =>
    rw [List.foldl_cons, periodicRow]
    split
    next =>
      obtain ⟨n, hn, heq⟩ := ih (p := { p with bytesScanned := p.bytesScanned + p.widthBytes }) hw
        (offset + 1)
      refine ⟨p.widthBytes + n, by omega, ?_⟩
      rw [heq]
      simp only [Int.add_assoc]
    next => exact ih hw offset

theorem copyBlockToPage_eq (hw : 0 < (s.page side).widthBytes) (hstride : 0 < s.block.lineStride)
    (htotal : s.block.lineStride ≤ s.block.totalBytes) :
    ∃ q, (s.page side).Grows q ∧ s.copyBlockToPage side = s.setPage side q := by
  have hheight : 1 ≤ s.block.totalBytes.tdiv s.block.lineStride := by
    have hnonneg : 0 ≤ s.block.totalBytes := hstride.le.trans htotal
    rw [Int.tdiv_eq_ediv_of_nonneg hnonneg]
    exact (Int.le_ediv_iff_mul_le hstride).mpr (by omega)
  obtain ⟨n, hn, heq⟩ := foldl_periodicRow s
    (List.range (s.block.totalBytes.tdiv s.block.lineStride).toNat) hw.le
    ((s.page side).bytesScanned.tdiv (s.page side).widthBytes)
  have hpos : 0 < (s.page side).widthBytes * s.block.totalBytes.tdiv s.block.lineStride :=
    Int.mul_pos hw hheight
  refine ⟨_, ⟨n + (s.page side).widthBytes * s.block.totalBytes.tdiv s.block.lineStride,
    by omega, rfl⟩, ?_⟩
  simp only [Scanner.copyBlockToPage, heq, Int.add_assoc]

/-- A block grows every page that is scanned. -/
theorem copyBlock_eq (hw : ∀ side, s.source.Covers side → 0 < (s.page side).widthBytes)
    (hstride : 0 < s.block.lineStride) (htotal : s.block.lineStride ≤ s.block.totalBytes) :
    ∃ f b, s.copyBlock = { s with front := f, back := b } ∧
      ∀ side, s.source.Covers side →
        (s.page side).Grows (({ s with front := f, back := b } : Scanner).page side) := by
  have hcopy := fun side h => @copyBlockToPage_eq s side (hw side h) hstride htotal
  obtain ⟨source, hsource⟩ : ∃ source, s.source = source := ⟨_, rfl⟩
  cases source with
  | flatbed | adfFront =>
    obtain ⟨q, hq, heq⟩ := hcopy .front (by simp [hsource, Source.Covers])
    refine ⟨q, s.back, ?_, ?_⟩
    · have hne : s.source ≠ .adfBack := by simp [hsource]
      have hback : ¬ (s.source = .adfDuplex ∨ s.source = .adfBack) := by simp [hsource]
      simp only [Scanner.copyBlock, if_neg hback, if_pos hne, heq]
      rfl
    · intro side hside
      rw [hsource] at hside
      cases hside
      exact hq
  | adfBack =>
    obtain ⟨q, hq, heq⟩ := hcopy .back (by simp [hsource, Source.Covers])
    refine ⟨s.front, q, ?_, ?_⟩
    · have hnot : ¬ (s.setPage .back q).source ≠ .adfBack := not_not.mpr hsource
      simp only [Scanner.copyBlock, if_pos (Or.inr hsource), heq, if_neg hnot]
      rfl
    · intro side hside
      rw [hsource] at hside
      cases hside
      exact hq
  | adfDuplex =>
    obtain ⟨b, hb, heqb⟩ := hcopy .back (by simp [hsource, Source.Covers])
    obtain ⟨f, hf, heqf⟩ := @copyBlockToPage_eq (s.setPage .back b) .front
      (hw .front (by simp [hsource, Source.Covers])) hstride htotal
    refine ⟨f, b, ?_, ?_⟩
    · have hne : (s.setPage .back b).source ≠ .adfBack := by
        change s.source ≠ .adfBack
        simp [hsource]
      simp only [Scanner.copyBlock, if_pos (Or.inl hsource), heqb, if_pos hne, heqf]
      rfl
    · intro side _
      cases side
      · exact hf
      · exact hb

/-! ### The counts of a scan -/

/-- What stays as it is during a scan from the feeder with page height 0. -/
structure Scanner.Feeding (s : Scanner) : Prop where
  model : s.model = .s300
  source : s.source ≠ .flatbed
  pageHeight : s.pageHeight = 0
  covers : s.source.Covers s.side
  width : ∀ side, s.source.Covers side → 0 < (s.page side).widthBytes
  stride : s.fullscan.widthBytes = s.block.lineStride
  stride_pos : 0 < s.block.lineStride
  height_pos : 0 < s.block.imageHeight
  raw_lt : s.block.lineStride * s.block.imageHeight + 8 < 2 ^ 64

/-- A page that is not finished when the scan is has bytes left. -/
structure Page.Counts (p : Page) (scanDone : Bool) : Prop where
  read_le : p.bytesRead ≤ p.bytesScanned
  of_done : p.done = true → scanDone = true
  left : scanDone = true → p.done = false → p.bytesRead < p.bytesScanned

structure Scanner.Counts (s : Scanner) : Prop where
  notDone : s.block.done = false
  block_dvd : s.block.lineStride ∣ s.block.totalBytes
  block_pos : 0 < s.block.totalBytes
  block_le : s.block.totalBytes ≤ s.block.lineStride * s.block.imageHeight
  rx_nonneg : 0 ≤ s.block.rxBytes
  rx_lt : s.block.rxBytes < s.block.totalBytes + 8
  scan_dvd : s.block.lineStride ∣ s.fullscan.rxBytes
  total_dvd : s.block.lineStride ∣ s.fullscan.totalBytes
  scan_nonneg : 0 ≤ s.fullscan.rxBytes
  total_le : s.fullscan.totalBytes ≤ s.fullscan.widthBytes * s.fullscan.height
  finished : s.fullscan.done = true → s.fullscan.rxBytes = s.fullscan.totalBytes
  unfinished : s.fullscan.done = false → s.fullscan.rxBytes < s.fullscan.totalBytes
  fits : s.fullscan.done = false → s.block.rxBytes ≠ 0 →
    s.fullscan.rxBytes + s.block.totalBytes ≤ s.fullscan.totalBytes
  pages : ∀ side, s.source.Covers side → (s.page side).Counts s.fullscan.done

theorem remainBlock_eq (h0 : 0 ≤ block.totalBytes - block.rxBytes + 8)
    (hlt : block.totalBytes - block.rxBytes + 8 < 2 ^ 64) :
    (block.remainBlock : Int) = block.totalBytes - block.rxBytes + 8 := by
  rw [Transfer.remainBlock, Int.emod_eq_of_lt h0 hlt, Int.toNat_of_nonneg h0]

/-- The block of an unfinished scan is a part of what remains. -/
structure Scanner.BlockFits (s : Scanner) : Prop where
  dvd : s.block.lineStride ∣ s.blockBytes
  pos : 0 < s.blockBytes
  le : s.blockBytes ≤ s.block.lineStride * s.block.imageHeight
  rx_lt : s.block.rxBytes < s.blockBytes + 8
  total : s.fullscan.rxBytes + s.blockBytes ≤ s.fullscan.totalBytes

theorem Scanner.Counts.blockFits (h : s.Counts) (hnd : s.fullscan.done = false) :
    s.BlockFits := by
  have hlt := h.unfinished hnd
  by_cases hrx : s.block.rxBytes = 0
  · have hbytes : s.blockBytes =
        min s.block.totalBytes (s.fullscan.totalBytes - s.fullscan.rxBytes) :=
      if_neg (not_not.mpr hrx)
    have hpos := h.block_pos
    have hle := h.block_le
    refine ⟨?_, ?_, ?_, ?_, ?_⟩
    · rw [hbytes]
      rcases min_choice s.block.totalBytes (s.fullscan.totalBytes - s.fullscan.rxBytes) with
        hmin | hmin
      · rw [hmin]
        exact h.block_dvd
      · rw [hmin]
        exact Int.dvd_sub h.total_dvd h.scan_dvd
    all_goals rw [hbytes]; omega
  · have hbytes : s.blockBytes = s.block.totalBytes := if_pos hrx
    have hfits := h.fits hnd hrx
    exact ⟨hbytes ▸ h.block_dvd, hbytes ▸ h.block_pos, hbytes ▸ h.block_le, hbytes ▸ h.rx_lt,
      hbytes ▸ hfits⟩

theorem Scanner.BlockFits.remainBlock_eq (h : s.BlockFits) (hf : s.Feeding) (hc : s.Counts) :
    (s.shrunk.block.remainBlock : Int) = s.blockBytes - s.block.rxBytes + 8 := by
  have hle := h.le
  have hlt := h.rx_lt
  have hraw := hf.raw_lt
  have hnonneg := hc.rx_nonneg
  apply Epjitsu.remainBlock_eq
  · change 0 ≤ s.blockBytes - s.block.rxBytes + 8
    omega
  · change s.blockBytes - s.block.rxBytes + 8 < 2 ^ 64
    omega

/-! ### Every step keeps the counts -/

theorem Scanner.Counts.withBlock (h : s.Counts) (hnd : s.fullscan.done = false) {rx : Int}
    (h0 : 0 ≤ rx) (hlt : rx < s.blockBytes + 8) : (s.withBlock rx).Counts := by
  have hb := h.blockFits hnd
  exact
    { h with
      notDone := rfl
      block_dvd := hb.dvd
      block_pos := hb.pos
      block_le := hb.le
      rx_nonneg := h0
      rx_lt := hlt
      fits := fun _ _ => hb.total }

theorem Scanner.Feeding.withBlock (h : s.Feeding) (rx : Int) : (s.withBlock rx).Feeding :=
  { h with }

/-- The size of the scan after a report. -/
def Scanner.reportedTotal (s : Scanner) (report : SaneByte × SaneByte) : Int :=
  if s.wholeBlocks report < s.fullscan.height then s.fullscan.widthBytes * s.wholeBlocks report
  else s.fullscan.totalBytes

theorem autodetect_eq (hsource : s.source ≠ .flatbed) (hheight : s.pageHeight = 0)
    (report : SaneByte × SaneByte) :
    s.autodetect report =
      { s with fullscan := { s.fullscan with totalBytes := s.reportedTotal report } } := by
  rw [Scanner.autodetect, Scanner.reportedTotal]
  by_cases hlt : s.wholeBlocks report < s.fullscan.height
  · rw [if_pos ⟨hsource, hheight, hlt⟩, if_pos hlt]
  · rw [if_neg fun h => hlt h.2.2, if_neg hlt]

/-- The scanner between two blocks. -/
def Scanner.between (s : Scanner) (report : SaneByte × SaneByte) (f b : Page) : Scanner :=
  { s with
    block := s.block.updateTransferTotals
    fullscan := { s.fullscan with
      rxBytes := s.fullscan.rxBytes + s.blockBytes
      totalBytes := s.reportedTotal report
      done := s.fullscan.rxBytes + s.blockBytes == s.reportedTotal report }
    front := f
    back := b }

theorem finishBlock_eq (hf : s.Feeding) (hb : s.BlockFits) (hnd : s.fullscan.done = false)
    (report : SaneByte × SaneByte) :
    ∃ f b, ((s.withBlock s.blockBytes).copyBlock.countBlock.autodetect report).nextBlock =
        s.between report f b ∧
      ∀ side, s.source.Covers side → (s.page side).Grows ((s.between report f b).page side) := by
  have htotal : s.block.lineStride ≤ s.blockBytes := Int.le_of_dvd hb.pos hb.dvd
  obtain ⟨f, b, heq, hgrows⟩ :=
    copyBlock_eq (s := s.withBlock s.blockBytes) hf.width hf.stride_pos htotal
  refine ⟨f, b, ?_, hgrows⟩
  rw [heq, autodetect_eq (by exact hf.source) (by exact hf.pageHeight), Scanner.nextBlock,
    Scanner.between]
  simp only [Scanner.countBlock, Scanner.withBlock, hnd, Bool.false_or]
  rfl

/-- The report names no fewer lines than have been received. -/
def Scanner.ReportFits (s : Scanner) (report : SaneByte × SaneByte) : Prop :=
  s.fullscan.height ≤ s.wholeBlocks report ∨
    s.fullscan.rxBytes + s.blockBytes ≤ s.fullscan.widthBytes * s.wholeBlocks report

theorem reportFits_iff (hb : s.BlockFits) (report : SaneByte × SaneByte) :
    s.ReportFits report ↔ s.fullscan.rxBytes + s.blockBytes ≤ s.reportedTotal report := by
  rw [Scanner.ReportFits, Scanner.reportedTotal]
  split
  next h => exact ⟨fun hfit => hfit.resolve_left (not_le.mpr h), Or.inr⟩
  next h => exact ⟨fun _ => hb.total, fun _ => Or.inl (not_lt.mp h)⟩

theorem Scanner.Counts.between (h : s.Counts) (hf : s.Feeding) (hnd : s.fullscan.done = false)
    {report : SaneByte × SaneByte} (hfit : s.ReportFits report) {f b : Page}
    (hgrows : ∀ side, s.source.Covers side →
      (s.page side).Grows ((s.between report f b).page side)) :
    (s.between report f b).Counts := by
  have hb := h.blockFits hnd
  have hle : s.fullscan.rxBytes + s.blockBytes ≤ s.reportedTotal report :=
    (reportFits_iff hb report).mp hfit
  have hsize : 0 < s.block.lineStride * s.block.imageHeight :=
    Int.mul_pos hf.stride_pos hf.height_pos
  have hpos := hb.pos
  have hnonneg := h.scan_nonneg
  refine ⟨rfl, Int.dvd_mul_right _ _, hsize, le_refl _, le_refl _, ?_, ?_, ?_, ?_, ?_, ?_, ?_, ?_,
    ?_⟩
  · change (0 : Int) < s.block.lineStride * s.block.imageHeight + 8
    omega
  · exact Int.dvd_add h.scan_dvd hb.dvd
  · change s.block.lineStride ∣ s.reportedTotal report
    rw [Scanner.reportedTotal]
    split
    · rw [hf.stride]
      exact Int.dvd_mul_right _ _
    · exact h.total_dvd
  · change 0 ≤ s.fullscan.rxBytes + s.blockBytes
    omega
  · change s.reportedTotal report ≤ s.fullscan.widthBytes * s.fullscan.height
    rw [Scanner.reportedTotal]
    split
    next hlt =>
      apply Int.mul_le_mul_of_nonneg_left hlt.le
      rw [hf.stride]
      exact hf.stride_pos.le
    next => exact h.total_le
  · intro hdone
    exact beq_iff_eq.mp hdone
  · intro hdone
    exact lt_of_le_of_ne hle (beq_eq_false_iff_ne.mp hdone)
  · intro _ hne
    exact absurd rfl hne
  · intro side hside
    obtain ⟨n, hn, hgrow⟩ := hgrows side hside
    have hpage := h.pages side hside
    have hopen : (s.page side).done = false := by
      by_contra hdone
      have hdone' := hpage.of_done (by simpa using hdone)
      rw [hnd] at hdone'
      cases hdone'
    have hread := hpage.read_le
    rw [hgrow]
    refine ⟨?_, ?_, ?_⟩
    · change (s.page side).bytesRead ≤ (s.page side).bytesScanned + n
      omega
    · intro hdone
      exact absurd (hopen.symm.trans hdone) nofun
    · intro _ _
      change (s.page side).bytesRead < (s.page side).bytesScanned + n
      omega

theorem Scanner.Feeding.between (h : s.Feeding) {report : SaneByte × SaneByte} {f b : Page}
    (hgrows : ∀ side, s.source.Covers side →
      (s.page side).Grows ((s.between report f b).page side)) :
    (s.between report f b).Feeding := by
  refine { h with width := ?_ }
  intro side hside
  obtain ⟨n, -, hgrow⟩ := hgrows side hside
  rw [hgrow]
  exact h.width side hside

theorem Scanner.Counts.setPage (h : s.Counts) {q : Page} (hq : q.Counts s.fullscan.done) :
    (s.setPage side q).Counts := by
  have hpages : ∀ side', s.source.Covers side' →
      ((s.setPage side q).page side').Counts s.fullscan.done := by
    intro side' hside
    by_cases heq : side' = side
    · rw [heq, page_setPage]
      exact hq
    · rw [page_setPage_of_ne heq]
      exact h.pages side' hside
  cases side <;> exact { h with pages := hpages }

theorem Scanner.Feeding.setPage (h : s.Feeding) {q : Page} (hq : 0 < q.widthBytes) :
    (s.setPage side q).Feeding := by
  have hwidth : ∀ side', s.source.Covers side' →
      0 < ((s.setPage side q).page side').widthBytes := by
    intro side' hside
    by_cases heq : side' = side
    · rw [heq, page_setPage]
      exact hq
    · rw [page_setPage_of_ne heq]
      exact h.width side' hside
  cases side <;> exact { h with width := hwidth }

/-- Some bytes of the page have been read. -/
def Page.afterRead (p : Page) (scanDone : Bool) (len : Int) : Page :=
  { p with
    bytesRead := p.bytesRead + len
    done := p.done || (scanDone && p.bytesRead + len == p.bytesScanned) }

theorem Page.Counts.afterRead {scanDone : Bool} (h : p.Counts scanDone) {len : Int}
    (hlen : len ≤ p.bytesScanned - p.bytesRead) : (p.afterRead scanDone len).Counts scanDone := by
  have hle : p.bytesRead + len ≤ p.bytesScanned := by omega
  refine ⟨hle, ?_, ?_⟩
  · intro hdone
    rcases Bool.or_eq_true_iff.mp hdone with hdone | hdone
    · exact h.of_done hdone
    · exact (Bool.and_eq_true_iff.mp hdone).1
  · intro hscan hopen
    have hne := (Bool.or_eq_false_iff.mp hopen).2
    rw [hscan, Bool.true_and] at hne
    exact lt_of_le_of_ne hle (beq_eq_false_iff_ne.mp hne)

theorem deliver_cases (s : Scanner) (maxLen : Nat) :
    (min ((s.page s.side).bytesScanned - (s.page s.side).bytesRead) maxLen = 0 ∧
      (s.deliver maxLen).2 = s) ∨
    (s.deliver maxLen).2 = s.setPage s.side ((s.page s.side).afterRead s.fullscan.done
      (min ((s.page s.side).bytesScanned - (s.page s.side).bytesRead) maxLen)) := by
  rw [Scanner.deliver]
  dsimp only
  split
  next h => exact Or.inl ⟨h, rfl⟩
  next => exact Or.inr rfl

theorem Scanner.Counts.deliver (h : s.Counts) (hf : s.Feeding) (maxLen : Nat) :
    (s.deliver maxLen).2.Counts ∧ (s.deliver maxLen).2.Feeding := by
  rcases deliver_cases s maxLen with ⟨-, heq⟩ | heq
  · rw [heq]
    exact ⟨h, hf⟩
  · rw [heq]
    exact ⟨h.setPage ((h.pages _ hf.covers).afterRead (min_le_left _ _)),
      hf.setPage (hf.width _ hf.covers)⟩

/-- The state after a call of `sane_read`. -/
def afterCall (s : Scanner) (c : Call) : Scanner := (saneRead s c).2.2

theorem afterCall_unfinished (hopen : (s.page s.side).done = false)
    (hnd : s.fullscan.done = false) :
    (s.acquire c).1 = .good ∧ afterCall s c = ((s.acquire c).2.deliver c.maxLen).2 ∨
    (s.acquire c).1 ≠ .good ∧ afterCall s c = (s.acquire c).2 := by
  rw [afterCall, saneRead]
  simp only [hopen, hnd, Bool.false_eq_true, if_false]
  obtain ⟨status, u⟩ := s.acquire c
  cases status
  case good => exact Or.inl ⟨rfl, rfl⟩
  all_goals exact Or.inr ⟨nofun, rfl⟩

theorem afterCall_finished (hopen : (s.page s.side).done = false)
    (hdone : s.fullscan.done = true) : afterCall s c = (s.deliver c.maxLen).2 := by
  rw [afterCall, saneRead]
  simp only [hopen, hdone, Bool.false_eq_true, if_false, if_true]

theorem afterCall_eof (hdone : (s.page s.side).done = true) : afterCall s c = s := by
  rw [afterCall, saneRead, if_pos hdone]

/-- A report that comes with this call names no fewer lines than have been received. -/
def Scanner.CallFits (s : Scanner) (c : Call) : Prop :=
  s.fullscan.done = false → s.Completes c → ∀ report, c.report = .ok report → s.ReportFits report

/-- The states in which a call does something, by what it brings. -/
theorem afterCall_cases (hc : s.Counts) (hf : s.Feeding) (hnd : s.fullscan.done = false)
    (c : Call) :
    (¬ s.Completes c ∧ ¬ c.Responsive ∧ afterCall s c = s.withBlock s.block.rxBytes) ∨
    (¬ s.Completes c ∧ ∃ n : Int, 0 < n ∧ s.block.rxBytes + n < s.blockBytes + 8 ∧
      afterCall s c = ((s.withBlock (s.block.rxBytes + n)).deliver c.maxLen).2) ∨
    ((∀ report, c.report ≠ .ok report) ∧ afterCall s c = s.withBlock s.blockBytes) ∨
    (s.Completes c ∧ ∃ report f b, c.report = .ok report ∧
      (∀ side, s.source.Covers side →
        (s.page side).Grows ((s.between report f b).page side)) ∧
      afterCall s c = ((s.between report f b).deliver c.maxLen).2) := by
  have hb := hc.blockFits hnd
  have hremain := hb.remainBlock_eq hf hc
  have hpos : 0 < s.shrunk.block.remainBlock := by
    have hlt := hb.rx_lt
    omega
  have hfull : s.block.rxBytes + s.shrunk.block.remainBlock - 8 = s.blockBytes := by omega
  have hopen : (s.page s.side).done = false := by
    have hpage := (hc.pages _ hf.covers).of_done
    rw [hnd] at hpage
    simpa using hpage
  have hafter := afterCall_unfinished (c := c) hopen hnd
  rcases acquire_cases hf.model hc.notDone hpos c with ⟨hnot, hnot', e, he, heq⟩ |
    ⟨hnot, n, hn, hlt, heq⟩ | ⟨hnone, e, he, heq⟩ | ⟨hcomp, report, hreport, heq⟩
  · rw [heq] at hafter
    exact Or.inl ⟨hnot, hnot', (hafter.resolve_left fun h => he h.1).2⟩
  · rw [heq] at hafter
    refine Or.inr (Or.inl ⟨hnot, n, by omega, by omega, ?_⟩)
    exact (hafter.resolve_right fun h => h.1 rfl).2
  · rw [heq, hfull] at hafter
    exact Or.inr (Or.inr (Or.inl ⟨hnone, (hafter.resolve_left fun h => he h.1).2⟩))
  · rw [hfull] at heq
    obtain ⟨f, b, hbetween, hgrows⟩ := finishBlock_eq hf hb hnd report
    rw [heq, hbetween] at hafter
    refine Or.inr (Or.inr (Or.inr ⟨hcomp, report, f, b, hreport, hgrows, ?_⟩))
    exact (hafter.resolve_right fun h => h.1 rfl).2

/-- A call whose report fits keeps the counts. -/
theorem afterCall_counts (h : s.Counts ∧ s.Feeding) (hfits : s.CallFits c) :
    (afterCall s c).Counts ∧ (afterCall s c).Feeding := by
  obtain ⟨hc, hf⟩ := h
  cases hnd : s.fullscan.done with
  | true =>
    cases hopen : (s.page s.side).done with
    | true =>
      rw [afterCall_eof hopen]
      exact ⟨hc, hf⟩
    | false =>
      rw [afterCall_finished hopen hnd]
      exact hc.deliver hf c.maxLen
  | false =>
    have hb := hc.blockFits hnd
    have hnonneg := hc.rx_nonneg
    have hpos := hb.pos
    rcases afterCall_cases hc hf hnd c with ⟨-, -, heq⟩ | ⟨-, n, hn, hlt, heq⟩ | ⟨-, heq⟩ |
      ⟨hcomp, report, f, b, hreport, hgrows, heq⟩
    · rw [heq]
      exact ⟨hc.withBlock hnd hnonneg hb.rx_lt, hf.withBlock _⟩
    · rw [heq]
      exact (hc.withBlock hnd (by omega) hlt).deliver (hf.withBlock _) _
    · rw [heq]
      exact ⟨hc.withBlock hnd hpos.le (by omega), hf.withBlock _⟩
    · rw [heq]
      have hfit := hfits hnd hcomp report hreport
      exact (hc.between hf hnd hfit hgrows).deliver (hf.between hgrows) _

/-! ### Safety -/

/-- The count does not exceed the total, and the bytes asked for fit into `raw_data`. -/
structure Scanner.Safe (s : Scanner) : Prop where
  received : s.fullscan.rxBytes ≤ s.fullscan.totalBytes
  block_nonneg : 0 ≤ s.blockBytes
  block_le : s.blockBytes ≤ s.block.lineStride * s.block.imageHeight
  asked_le : s.block.rxBytes + s.shrunk.block.asked ≤
    s.block.lineStride * s.block.imageHeight + 8

theorem Scanner.Counts.safe (hc : s.Counts) (hf : s.Feeding) : s.Safe := by
  have hle := hc.block_le
  have hpos := hc.block_pos
  have hnonneg := hc.rx_nonneg
  have hraw := hf.raw_lt
  have hreceived : s.fullscan.rxBytes ≤ s.fullscan.totalBytes := by
    cases hnd : s.fullscan.done with
    | true => exact (hc.finished hnd).le
    | false => exact (hc.unfinished hnd).le
  have hbytes : 0 ≤ s.blockBytes ∧ s.blockBytes ≤ s.block.totalBytes ∧
      s.block.rxBytes < s.blockBytes + 8 := by
    rw [Scanner.blockBytes]
    have hlt := hc.rx_lt
    split
    next => omega
    next hrx => omega
  refine ⟨hreceived, hbytes.1, by omega, ?_⟩
  have hremain : (s.shrunk.block.remainBlock : Int) = s.blockBytes - s.block.rxBytes + 8 := by
    apply Epjitsu.remainBlock_eq
    · change 0 ≤ s.blockBytes - s.block.rxBytes + 8
      omega
    · change s.blockBytes - s.block.rxBytes + 8 < 2 ^ 64
      omega
  have hasked : s.shrunk.block.asked ≤ s.shrunk.block.remainBlock := Nat.min_le_right _ _
  omega

theorem deliver_fullscan (s : Scanner) (maxLen : Nat) :
    (s.deliver maxLen).2.fullscan = s.fullscan ∧ (s.deliver maxLen).2.block = s.block := by
  rcases deliver_cases s maxLen with ⟨-, heq⟩ | heq
  · rw [heq]
    exact ⟨rfl, rfl⟩
  · rw [heq]
    cases s.side <;> exact ⟨rfl, rfl⟩

/-- A report that does not fit lets the count step over the total. -/
theorem callFits_of_safe (hc : s.Counts) (hf : s.Feeding) (hsafe : (afterCall s c).Safe) :
    s.CallFits c := by
  intro hnd hcomp report hreport
  rcases afterCall_cases hc hf hnd c with ⟨hnot, -⟩ | ⟨hnot, -⟩ | ⟨hnone, -⟩ |
    ⟨-, report', f, b, hreport', -, heq⟩
  · exact absurd hcomp hnot
  · exact absurd hcomp hnot
  · exact absurd hreport (hnone report)
  · cases hreport.symm.trans hreport'
    have hreceived := hsafe.received
    rw [heq, (deliver_fullscan _ _).1] at hreceived
    exact (reportFits_iff (hc.blockFits hnd) report).mpr hreceived

/-! ### The end of the scan -/

/-- What an unfinished scan still has to do: each byte of a block counts one, the bytes outside
    the block count as much as a whole block. -/
def Scanner.toDo (s : Scanner) : Int :=
  (s.fullscan.widthBytes * s.fullscan.height - s.fullscan.rxBytes) *
      (s.block.lineStride * s.block.imageHeight + 9) +
    (s.block.lineStride * s.block.imageHeight + 8 - s.block.rxBytes)

theorem toDo_nonneg (hc : s.Counts) : 0 ≤ s.toDo := by
  have hscan : s.fullscan.rxBytes ≤ s.fullscan.totalBytes := by
    cases hnd : s.fullscan.done with
    | true => exact (hc.finished hnd).le
    | false => exact (hc.unfinished hnd).le
  have htotal := hc.total_le
  have hle := hc.block_le
  have hpos := hc.block_pos
  have hlt := hc.rx_lt
  have hprod : 0 ≤ (s.fullscan.widthBytes * s.fullscan.height - s.fullscan.rxBytes) *
      (s.block.lineStride * s.block.imageHeight + 9) :=
    Int.mul_nonneg (by omega) (by omega)
  rw [Scanner.toDo]
  omega

theorem toDo_afterCall (hc : s.Counts) (hf : s.Feeding) (hnd : s.fullscan.done = false)
    (hresp : c.Responsive) : (afterCall s c).toDo < s.toDo := by
  have hb := hc.blockFits hnd
  rcases afterCall_cases hc hf hnd c with ⟨-, hnot, -⟩ | ⟨-, n, hn, -, heq⟩ | ⟨hnone, -⟩ |
    ⟨-, report, f, b, -, -, heq⟩
  · exact absurd hresp hnot
  · rw [heq, Scanner.toDo, (deliver_fullscan _ _).1, (deliver_fullscan _ _).2, Scanner.toDo]
    change (s.fullscan.widthBytes * s.fullscan.height - s.fullscan.rxBytes) *
        (s.block.lineStride * s.block.imageHeight + 9) +
        (s.block.lineStride * s.block.imageHeight + 8 - (s.block.rxBytes + n)) < _
    omega
  · obtain ⟨report, hreport⟩ := hresp.report
    exact absurd hreport (hnone report)
  · rw [heq, Scanner.toDo, (deliver_fullscan _ _).1, (deliver_fullscan _ _).2, Scanner.toDo]
    change (s.fullscan.widthBytes * s.fullscan.height - (s.fullscan.rxBytes + s.blockBytes)) *
        (s.block.lineStride * s.block.imageHeight + 9) +
        (s.block.lineStride * s.block.imageHeight + 8 - 0) < _
    have hpos := hb.pos
    have hle := hb.le
    have hlt := hb.rx_lt
    -- the bytes of the block weigh more than what the block can have left
    have hblock : s.block.lineStride * s.block.imageHeight + 9 ≤
        s.blockBytes * (s.block.lineStride * s.block.imageHeight + 9) := by
      apply le_mul_of_one_le_left
      · omega
      · exact hpos
    have hsplit : (s.fullscan.widthBytes * s.fullscan.height -
          (s.fullscan.rxBytes + s.blockBytes)) *
          (s.block.lineStride * s.block.imageHeight + 9) =
        (s.fullscan.widthBytes * s.fullscan.height - s.fullscan.rxBytes) *
            (s.block.lineStride * s.block.imageHeight + 9) -
          s.blockBytes * (s.block.lineStride * s.block.imageHeight + 9) := by
      ring
    rw [hsplit]
    omega

/-- What the frontend has not read of the page. -/
def Scanner.unread (s : Scanner) : Int := (s.page s.side).bytesScanned - (s.page s.side).bytesRead

theorem unread_afterCall (hc : s.Counts) (hf : s.Feeding) (hdone : s.fullscan.done = true)
    (hopen : (s.page s.side).done = false) (hlen : 0 < c.maxLen) :
    (afterCall s c).unread < s.unread := by
  have hleft := (hc.pages _ hf.covers).left hdone hopen
  rw [afterCall_finished hopen hdone]
  rcases deliver_cases s c.maxLen with ⟨hzero, -⟩ | heq
  · omega
  · rw [Scanner.unread, heq, setPage_side, page_setPage, Scanner.unread, Page.afterRead]
    dsimp only
    omega

theorem done_afterCall (hdone : s.fullscan.done = true) (c : Call) :
    (afterCall s c).fullscan.done = true := by
  cases hopen : (s.page s.side).done with
  | true => rwa [afterCall_eof hopen]
  | false => rwa [afterCall_finished hopen hdone, (deliver_fullscan _ _).1]

theorem saneRead_eof (hdone : (s.page s.side).done = true) : (saneRead s c).1 = .eof := by
  rw [saneRead, if_pos hdone]

/-! ### The scan of a document feeder -/

theorem settings_spec : ∀ r ∈ settings, r.model = .s300 →
    0 < r.actWidth ∧ 8 ≤ r.headWidth ∧ 0 < r.blockHeight ∧
      r.actWidth * 3 * r.blockHeight + 8 < 2 ^ 64 ∧
      0 < (r.maxY * 1200 / r.yRes : Nat) * (r.yRes : Int) / 1200 := by
  decide +kernel

theorem pageWidthBytes_pos {r : ModelRes} (h : 8 ≤ r.headWidth) (mode : Mode) :
    0 < pageWidthBytes r mode := by
  have hpix : 8 ≤ r.headWidth * if r.model = .s300 then 1 else 3 := by
    split <;> omega
  cases mode
  · exact Nat.mul_pos (by omega) (by decide)
  · exact Nat.lt_of_lt_of_le (by decide) hpix
  · exact Nat.div_pos hpix (by decide)

variable {r : ModelRes} {source : Source}

theorem feeding_start (hr : r ∈ settings) (hmodel : r.model = .s300) (hsource : source ≠ .flatbed)
    (mode : Mode) (hside : source.Covers side) : (start r source mode 0 side).Feeding := by
  obtain ⟨hact, hhead, hblock, hraw, -⟩ := settings_spec r hr hmodel
  have hwidth := pageWidthBytes_pos hhead mode
  refine ⟨hmodel, hsource, rfl, hside, ?_, rfl, ?_, ?_, ?_⟩
  · intro side' _
    cases side' <;> exact Int.natCast_pos.mpr hwidth
  · change (0 : Int) < r.actWidth * 3
    omega
  · change (0 : Int) < r.blockHeight
    omega
  · change (r.actWidth * 3 : Int) * r.blockHeight + 8 < 2 ^ 64
    exact_mod_cast hraw

theorem counts_start (hr : r ∈ settings) (hmodel : r.model = .s300) (mode : Mode) (side : Side) :
    (start r source mode 0 side).Counts := by
  obtain ⟨hact, -, hblock, -, hheight⟩ := settings_spec r hr hmodel
  have hsize : 0 < (r.actWidth * 3 : Int) * r.blockHeight :=
    Int.mul_pos (by omega) (by omega)
  have hfull : fullscanHeight r source 0 =
      (r.maxY * 1200 / r.yRes : Nat) * (r.yRes : Int) / 1200 := if_pos (Or.inr rfl)
  have htotal : 0 < (r.actWidth * 3 : Int) * fullscanHeight r source 0 := by
    rw [hfull]
    exact Int.mul_pos (by omega) hheight
  refine ⟨rfl, Int.dvd_mul_right _ _, hsize, le_refl _, le_refl _, ?_, Int.dvd_zero _,
    Int.dvd_mul_right _ _, le_refl _, le_refl _, nofun, fun _ => htotal, ?_, ?_⟩
  · change (0 : Int) < r.actWidth * 3 * r.blockHeight + 8
    omega
  · intro _ hne
    exact absurd rfl hne
  · intro side' _
    cases side' <;> exact ⟨le_refl _, nofun, nofun⟩

/-- The states of a scan from the feeder with page height 0. -/
def scan (r : ModelRes) (source : Source) (mode : Mode) (side : Side) (calls : Nat → Call) :
    Nat → Scanner :=
  states afterCall calls (start r source mode 0 side)

/-- A scan of unknown length is safe, and comes to its end when the device goes on sending, exactly
    when no report names fewer lines than have been received. -/
theorem scan_safe_iff (hr : r ∈ settings) (hmodel : r.model = .s300) (hsource : source ≠ .flatbed)
    (mode : Mode) (hside : source.Covers side) (calls : Nat → Call) :
    ((∀ n, (scan r source mode side calls n).Safe) ∧
      ((∀ n, (calls n).Responsive ∧ 0 < (calls n).maxLen) →
        (∃ n, (scan r source mode side calls n).fullscan.done = true) ∧
        ∃ n, (saneRead (scan r source mode side calls n) (calls n)).1 = .eof)) ↔
    ∀ n, (scan r source mode side calls n).CallFits (calls n) := by
  have hstart : (start r source mode 0 side).Counts ∧ (start r source mode 0 side).Feeding :=
    ⟨counts_start hr hmodel mode side, feeding_start hr hmodel hsource mode hside⟩
  constructor
  · rintro ⟨hsafe, -⟩ n
    have hcounts : (scan r source mode side calls n).Counts ∧
        (scan r source mode side calls n).Feeding := by
      induction n with
      | zero => exact hstart
      | succ n ih => exact afterCall_counts ih (callFits_of_safe ih.1 ih.2 (hsafe (n + 1)))
    exact callFits_of_safe hcounts.1 hcounts.2 (hsafe (n + 1))
  · intro hfits
    have hcounts : ∀ n, (scan r source mode side calls n).Counts ∧
        (scan r source mode side calls n).Feeding :=
      states_invariant (I := fun s => s.Counts ∧ s.Feeding) (P := Scanner.CallFits) hstart
        (fun _ _ => afterCall_counts) hfits
    refine ⟨fun n => (hcounts n).1.safe (hcounts n).2, ?_⟩
    intro hresp
    have hdone : ∃ n, (scan r source mode side calls n).fullscan.done = true := by
      apply exists_of_measure fun n => (scan r source mode side calls n).toDo.toNat
      intro n hn
      obtain ⟨hc, hf⟩ := hcounts n
      have hlt : (scan r source mode side calls (n + 1)).toDo <
          (scan r source mode side calls n).toDo :=
        toDo_afterCall hc hf (Bool.eq_false_iff.mpr hn) (hresp n).1
      have hnonneg := toDo_nonneg (hcounts (n + 1)).1
      omega
    refine ⟨hdone, ?_⟩
    obtain ⟨m, hm⟩ := hdone
    have hlater : ∀ k, (scan r source mode side calls (m + k)).fullscan.done = true := by
      intro k
      induction k with
      | zero => exact hm
      | succ k ih => exact done_afterCall ih _
    obtain ⟨k, hk⟩ : ∃ k, ((scan r source mode side calls (m + k)).page
        (scan r source mode side calls (m + k)).side).done = true := by
      apply exists_of_measure fun k => (scan r source mode side calls (m + k)).unread.toNat
      intro k hk
      obtain ⟨hc, hf⟩ := hcounts (m + k)
      have hlt : (scan r source mode side calls (m + (k + 1))).unread <
          (scan r source mode side calls (m + k)).unread :=
        unread_afterCall hc hf (hlater k) (Bool.eq_false_iff.mpr hk) (hresp (m + k)).2
      obtain ⟨hc', hf'⟩ := hcounts (m + (k + 1))
      have hnonneg : 0 ≤ (scan r source mode side calls (m + (k + 1))).unread :=
        Int.sub_nonneg_of_le (hc'.pages _ hf'.covers).read_le
      omega
    exact ⟨m + k, saneRead_eof hk⟩

/-- A device whose reports name line 0. -/
def paperOut : Call := ⟨1, .ok 6, .ok MAX_IMG_PASS, .ok (0, 0)⟩

/-- After the first block of the front side 523488 bytes have been received and none are to come;
    the next block is one of -523488 bytes. -/
theorem scan_paperOut :
    ¬ ∀ n, (scan ⟨.s300, 150, 150, false, 2662, 4256, 1296, 41⟩ .adfFront .grayscale .front
      (fun _ => paperOut) n).Safe := by
  intro h
  have hreceived := (h 8).received
  revert hreceived
  decide +kernel

/-- A device that has seen no end of the paper. -/
def paperLeft : Call := ⟨100000, .ok 6, .ok MAX_IMG_PASS, .ok (0xff, 0xff)⟩

/-- A call leaves the height of the scan as it is. -/
theorem afterCall_height (hc : s.Counts) (hf : s.Feeding) (c : Call) :
    (afterCall s c).fullscan.height = s.fullscan.height := by
  cases hnd : s.fullscan.done with
  | true =>
    cases hopen : (s.page s.side).done with
    | true => rw [afterCall_eof hopen]
    | false => rw [afterCall_finished hopen hnd, (deliver_fullscan _ _).1]
  | false =>
    rcases afterCall_cases hc hf hnd c with ⟨-, -, heq⟩ | ⟨-, n, -, -, heq⟩ | ⟨-, heq⟩ |
      ⟨-, report, f, b, -, -, heq⟩
    · rw [heq]
      rfl
    · rw [heq, (deliver_fullscan _ _).1]
      rfl
    · rw [heq]
      rfl
    · rw [heq, (deliver_fullscan _ _).1]
      rfl

/-- The blocks in which the device has seen no end of the paper are 65535 lines high at least. -/
theorem wholeBlocks_ge (hf : s.Feeding) : 0xffff ≤ s.wholeBlocks (0xff, 0xff) := by
  have hmod := Int.emod_lt_of_pos 0xffff hf.height_pos
  have hget : (((0xff : SaneByte).toNat <<< 8 ||| (0xff : SaneByte).toNat : Nat) : Int) =
      0xffff := by decide
  rw [Scanner.wholeBlocks, hget]
  split_ifs <;> omega

theorem callFits_paperLeft (hf : s.Feeding) (hheight : s.fullscan.height ≤ 0xffff) :
    s.CallFits paperLeft := by
  intro _ _ report hreport
  cases hreport
  exact .inl (hheight.trans (wholeBlocks_ge hf))

/-- A sheet of unknown length that is never seen to end: the whole height is scanned. -/
theorem scan_paperLeft :
    let r : ModelRes := ⟨.s300, 600, 600, true, 10648, 16064, 5184, 10⟩
    (∀ n, (scan r .adfDuplex .color .front (fun _ => paperLeft) n).Safe) ∧
      (∃ n, (scan r .adfDuplex .color .front (fun _ => paperLeft) n).fullscan.done = true) ∧
      ∃ n, (saneRead (scan r .adfDuplex .color .front (fun _ => paperLeft) n) paperLeft).1 =
        .eof := by
  intro r
  have hinv : ∀ n, (scan r .adfDuplex .color .front (fun _ => paperLeft) n).Counts ∧
      (scan r .adfDuplex .color .front (fun _ => paperLeft) n).Feeding ∧
      (scan r .adfDuplex .color .front (fun _ => paperLeft) n).fullscan.height ≤ 0xffff := by
    intro n
    induction n with
    | zero =>
      exact ⟨counts_start (by decide) rfl _ _, feeding_start (by decide) rfl (by decide) _ trivial,
        by decide⟩
    | succ n ih =>
      obtain ⟨hc, hf, hheight⟩ := ih
      obtain ⟨hc', hf'⟩ := afterCall_counts ⟨hc, hf⟩ (callFits_paperLeft hf hheight)
      exact ⟨hc', hf', (afterCall_height hc hf paperLeft).trans_le hheight⟩
  have hfits : ∀ n, (scan r .adfDuplex .color .front (fun _ => paperLeft) n).CallFits paperLeft :=
    fun n => callFits_paperLeft (hinv n).2.1 (hinv n).2.2
  obtain ⟨hsafe, hends⟩ := (scan_safe_iff (by decide) rfl (by decide) .color
    (show Source.Covers .adfDuplex .front from trivial) fun _ => paperLeft).mpr hfits
  refine ⟨hsafe, hends fun _ => ⟨⟨rfl, ⟨_, ?_, rfl⟩, ⟨_, rfl⟩⟩, ?_⟩⟩
  · decide
  · decide

end SaneBackends.Epjitsu
