import SaneBackends.SnapscanColumns

/-!
# The runs of the deinterlacer of the SnapScan backend

For which widths and heights every image comes out with its columns put right, whatever
source it is read from and in whatever pieces.  If the even columns are the shifted ones it
is no image at all: a source may give a single byte, and the neighbour of the first pixel
is used before it has been read.
-/

namespace SaneBackends

open Overwrite PullStream LabelledRun

variable {pss : SnapScanScanner} {w : List SaneByte} {width height : Nat}

/-- In every run the columns of every image of this size are put right, and each byte is
    computed from bytes of the image that have been read. -/
def Deinterlaces (pss : SnapScanScanner) (width height : Nat) : Prop :=
  ∀ w : List SaneByte, w.length = pss.bytesPerLine * height →
    ∀ b : BaseSource, b.Holds pss w → ∀ ns s out,
      Gets (deinterlacerSource (baseSource pss)).toPullSource SaneStatus.good
        (Deinterlacer.init pss (baseSource pss), b) ns (s, out) →
      s.1.stale = false ∧ s.1.early = false ∧
        (Deinterlacer.init pss (baseSource pss)).Pixels width w out

/-- The bytes of a line, for lines of `width` pixels. -/
def SnapScanScanner.lineBytes (pss : SnapScanScanner) (width : Nat) : Nat :=
  if pss.mode = .lineart then (width + 7) / 8
  else width * (Deinterlacer.init pss (baseSource pss)).chBytesPerPixel

theorem init_lines (hwidth : 0 < width) (hline : pss.bytesPerLine = pss.lineBytes width) :
    (Deinterlacer.init pss (baseSource pss)).Lines width := by
  have hbytes : 0 < (Deinterlacer.init pss (baseSource pss)).chBytesPerPixel := by
    unfold Deinterlacer.init
    simp only
    split_ifs <;> decide
  have hpos : 0 < pss.bytesPerLine := by
    rw [hline, SnapScanScanner.lineBytes]
    split_ifs
    · omega
    · exact Nat.mul_pos hwidth hbytes
  refine ⟨⟨hpos, rfl⟩, hwidth, ?_, hbytes, ?_⟩
  · refine hline.trans ?_
    unfold SnapScanScanner.lineBytes
    congr 1
    exact beq_iff_eq.symm.eq
  · unfold Deinterlacer.init
    simp only
    split_ifs <;> decide

/-! ### Runs that reach the end -/

variable {p : Deinterlacer} {s : Deinterlacer × BaseSource} {u : BufSource} {k : Nat}

/-- A buffer gives something as long as it has not given everything. -/
theorem askSub_buf (hw : w.length < 2 ^ 31) (hat : u.At w k) (hk : k < w.length) {n : Nat}
    (hn : 0 < n) {τ : Type} (store : List SaneByte → τ) (t : τ) :
    ∃ t' u', askSub (baseSource pss) n store t (.buf u) = some (.go (t', .buf u')) := by
  have hremaining := hat.remaining hw
  have hget : (baseSource pss).get (.buf u) n = some (.good,
      (u.buf.drop u.bufPos).take (min (n : Int) u.remaining).toNat,
      .buf { u with bufPos := u.bufPos + (min (n : Int) u.remaining).toNat }) := by
    show (u.get n).map _ = _
    rw [BufSource.get, if_neg (by omega)]
    rfl
  have hsome : (u.buf.drop u.bufPos).take (min (n : Int) u.remaining).toNat ≠ [] := by
    rw [hat.buf, hat.pos]
    apply List.ne_nil_of_length_pos
    rw [List.length_take, List.length_drop]
    omega
  refine ⟨store ((u.buf.drop u.bufPos).take (min (n : Int) u.remaining).toNat),
    { u with bufPos := u.bufPos + (min (n : Int) u.remaining).toNat }, ?_⟩
  rw [askSub, hget]
  simp only
  rw [if_neg (fun h => h rfl), if_neg hsome]

/-- Asked for one byte, a deinterlacer above a buffer gives one. -/
theorem deinterlacer_one (hsized : p.Sized) (hw : w.length < 2 ^ 31)
    (h : p.At w False (BaseSource.At w) s k) (hbuf : s.2 = .buf u) (hk : k < w.length) :
    ∃ d u', Deinterlacer.refill (baseSource pss) s = some (.go (d, .buf u')) ∧
      (deinterlacerSource (baseSource pss)).get s 1 =
        some (SaneStatus.good, [d.byte?.getD 0], (d.next, .buf u')) := by
  have hpositive : 0 < Deinterlacer.remaining (baseSource pss) s := by
    refine deinterlacer_remaining_pos (base_delivers hw pss fun _ => True) hw ?_ h hk
    intro s k hat
    have hle := BaseSource.At.le hat
    show -2 ^ 31 ≤ s.remaining
    rw [BaseSource.At.remaining hat hw]
    omega
  obtain ⟨t, hat, hinv, -, hnear⟩ := h
  have hrefill : ∃ d u', Deinterlacer.refill (baseSource pss) s = some (.go (d, .buf u')) := by
    rw [Deinterlacer.refill]
    by_cases hfetch : s.1.chPos % s.1.chLineSize = s.1.chNdata % s.1.chLineSize
    · have heq := (fetch_iff hinv hnear).mp hfetch
      have hcount := hinv.count
      have hwant : 0 < s.1.wrap.1 := by
        have hline := hsized.line
        have hmod := Nat.mod_lt s.1.chNdata hline
        rw [Deinterlacer.wrap, hinv.like.lineSize]
        split_ifs
        · exact hline
        · show 0 < p.chLineSize - s.1.chNdata % p.chLineSize
          omega
      rw [if_pos hfetch, hbuf]
      rw [hbuf] at hat
      exact askSub_buf hw hat (by omega) hwant s.1.wrap.2.gotData s.1.wrap.2
    · rw [if_neg hfetch]
      exact ⟨s.1, u, by rw [← hbuf]⟩
  obtain ⟨d, u', hgo⟩ := hrefill
  refine ⟨d, u', hgo, ?_⟩
  show Deinterlacer.get (baseSource pss) s 1 = _
  rw [Deinterlacer.get, transformLoop, if_neg (by omega), hgo]
  rfl

/-- A run that reads one byte after the other comes as far as one likes, unless a byte is
    made too early. -/
theorem deinterlacer_reaches (hsized : p.Sized) (hw : w.length < 2 ^ 31)
    (h₀ : p.At w False (BaseSource.At w) s 0) (hbuf : s.2 = .buf u) {m : Nat}
    (hm : m ≤ w.length) :
    ∃ ns s' out, Gets (deinterlacerSource (baseSource pss)).toPullSource SaneStatus.good s ns
      (s', out) ∧ (s'.1.early = true ∨ out = (p.deinterlace w).take m ∧
        p.At w False (BaseSource.At w) s' m ∧ ∃ u', s'.2 = .buf u') := by
  induction m with
  | zero => exact ⟨[], s, [], .nil, .inr ⟨rfl, h₀, u, hbuf⟩⟩
  | succ m ih =>
    obtain ⟨ns, s', out, hrun, hearly | ⟨hout, hat, u', hbuf'⟩⟩ := ih (by omega)
    · exact ⟨ns, s', out, hrun, .inl hearly⟩
    · obtain ⟨d, u'', hgo, hget⟩ := @deinterlacer_one pss w p s' u' m hsized hw hat hbuf' hm
      have hready := deinterlacer_go hsized (base_delivers hw pss fun _ => True)
        (fun _ _ => trivial) False.elim hat hgo
      refine ⟨ns ++ [1], (d.next, .buf u''), out ++ [d.byte?.getD 0], hrun.snoc ⟨_, hget, rfl⟩, ?_⟩
      cases hearly : d.tooEarly with
      | true =>
        left
        show (d.early || d.tooEarly) = true
        rw [hearly, Bool.or_true]
      | false =>
        right
        obtain ⟨hfront, hat'⟩ :=
          deinterlacer_makes hsized (base_delivers hw pss fun _ => True) hready hearly
        refine ⟨?_, hat', u'', rfl⟩
        obtain ⟨rest, hrest⟩ := hfront
        rw [hout, List.take_add, ← hrest]
        rfl

/-- What holds of every run holds of the whole output. -/
theorem Deinterlaces.image (h : Deinterlaces pss width height) (hline : 0 < pss.bytesPerLine)
    (hlen : w.length = pss.bytesPerLine * height) (hw : w.length < 2 ^ 31) :
    (Deinterlacer.init pss (baseSource pss)).Pixels width w
      ((Deinterlacer.init pss (baseSource pss)).deinterlace w) := by
  have hholds : (BaseSource.buf (BufSource.init w)).Holds pss w := .buf
  obtain ⟨hsized, h₀⟩ := @deinterlacer_init _ (baseSource pss) w False (BaseSource.At w) pss hline _
    (hholds.at hw)
  obtain ⟨ns, s, out, hrun, hend⟩ := deinterlacer_reaches hsized hw h₀ rfl le_rfl
  obtain ⟨-, hearly, hpixels⟩ := h w hlen _ hholds ns s out hrun
  rcases hend with hbad | ⟨hall, -⟩
  · rw [hearly] at hbad
    cases hbad
  · have hwhole := List.take_of_length_le
      (length_deinterlace (Deinterlacer.init pss (baseSource pss)) w).le
    rwa [hall, hwhole] at hpixels

/-! ### When no byte is made too early -/

/-- In lineart mode no neighbour is needed. -/
theorem timely_lineart {d : Deinterlacer} {t : Nat} (hlineart : p.chLineart = true)
    (h : p.Inv w d t k) : d.tooEarly = false := by
  rw [Deinterlacer.tooEarly, h.like.lineart, hlineart]
  rfl

/-- The pixel on the left of a shifted one has been read, if no line begins with one. -/
theorem timely_grey {d : Deinterlacer} {t : Nat} (hlines : p.Lines width)
    (hlineart : p.chLineart = false) (hodd : p.chShiftEven = false)
    (hfits : width % 2 = 0 ∨ height ≤ 1) (hw : w.length = p.chLineSize * height)
    (h : p.Inv w d t k) (ht : t ≤ w.length) (hready : d.chPos < d.chNdata) :
    d.tooEarly = false := by
  have hbytes := hlines.bytes
  have hline := grey_line hlines hlineart
  have hplace : d.chPos / p.chBytesPerPixel % 2 = 1 → p.chBytesPerPixel ≤ d.chPos ∧
      d.chPos % p.chLineSize ≠ 0 := by
    intro hparity
    constructor
    · by_contra hlt
      rw [Nat.div_eq_of_lt (Nat.lt_of_not_le hlt)] at hparity
      cases hparity
    · intro hbegins
      obtain ⟨m, hm⟩ := Nat.dvd_of_mod_eq_zero hbegins
      rcases hfits with heven | hsingle
      · rw [hm, hline, Nat.mul_right_comm, Nat.mul_div_cancel _ hbytes, Nat.mul_mod, heven,
          Nat.zero_mul] at hparity
        cases hparity
      · -- a single line: the place is the number of the byte
        obtain ⟨q, hq⟩ := h.begins
        have hmul : p.chLineSize * height ≤ p.chLineSize * 1 := Nat.mul_le_mul_left _ hsingle
        have hinside : d.chPos < p.chLineSize := by omega
        rw [Nat.mod_eq_of_lt hinside] at hbegins
        rw [hbegins, Nat.zero_div] at hparity
        cases hparity
  cases hshift : d.shifted with
  | false => rw [Deinterlacer.tooEarly, hshift, Bool.and_false, Bool.false_and]
  | true =>
    have hparity : d.chPos / p.chBytesPerPixel % 2 = 1 := by
      rw [Deinterlacer.shifted, h.like.shiftEven, hodd, h.like.bytesPerPixel] at hshift
      exact of_decide_eq_true hshift
    obtain ⟨hfirst, hinside⟩ := hplace hparity
    have hbeside : ¬ (d.neighbour < 0 ∨ (d.chNdata : Int) ≤ d.neighbour) := by
      rw [Deinterlacer.neighbour, h.like.lineSize, h.like.bytesPerPixel, if_neg hinside]
      omega
    rw [Deinterlacer.tooEarly, ← Bool.decide_or, decide_eq_false hbeside, Bool.and_false]

/-- If the even columns are shifted, the first pixel is made of one that need not be there. -/
theorem even_early (hlineart : p.chLineart = false) (heven : p.chShiftEven = true)
    (hpos : p.chPos = 0) (hnone : p.chNdata = 0) (hpast : p.chPastInit = false)
    (hbytes : 0 < p.chBytesPerPixel) (byte : SaneByte) : (p.gotData [byte]).tooEarly = true := by
  have hneighbour : (p.gotData [byte]).neighbour = p.chBytesPerPixel := by
    show (if p.chPos % p.chLineSize = 0 then (p.chPos : Int) + p.chBytesPerPixel else _) = _
    rw [hpos, Nat.zero_mod, if_pos rfl]
    exact zero_add _
  have hshift : (p.gotData [byte]).shifted = true := by
    show (if p.chShiftEven then p.chPos / p.chBytesPerPixel % 2 == 0 else _) = _
    rw [heven, hpos, Nat.zero_div]
    rfl
  have hndata : (p.gotData [byte]).chNdata = 1 := by
    show p.chNdata + 1 = 1
    rw [hnone]
  rw [Deinterlacer.tooEarly, hshift, hneighbour, hndata]
  show (!p.chLineart && !p.chPastInit && true && _) = true
  rw [hlineart, hpast, decide_eq_true (show ((1 : Nat) : Int) ≤ p.chBytesPerPixel by omega),
    Bool.or_true]
  rfl

/-- A pipe that has one byte for now. -/
theorem fd_one (byte : SaneByte) (rest : List SaneByte) (hw : (byte :: rest).length < 2 ^ 31)
    {n : Nat} (hn : 0 < n) :
    ∃ fd, (FDSource.init (byte :: rest) [.deliver 1, .again]).get n =
      some (.good, [byte], fd) := by
  have hlen : saneInt (byte :: rest).length = (byte :: rest).length :=
    saneInt_of_lt (by omega) (by omega)
  have hremaining : ¬ (FDSource.init (byte :: rest) [.deliver 1, .again]).remaining ≤ 0 := by
    show ¬ saneInt (byte :: rest).length ≤ 0
    rw [hlen, List.length_cons]
    omega
  have hbytes : (byte :: rest).take (min 1 n) = [byte] := by
    rw [Nat.min_eq_left hn]
    rfl
  show ∃ fd, FDSource.getLoop [.deliver 1, .again] n _ [] = _
  rw [FDSource.getLoop, if_neg (not_or.mpr ⟨hn.ne', hremaining⟩)]
  have hunread : (FDSource.init (byte :: rest) [.deliver 1, .again]).unread = byte :: rest := rfl
  simp only [hunread, hbytes, List.length_singleton, Nat.one_ne_zero, if_false]
  rw [FDSource.getLoop]
  split_ifs
  · exact ⟨_, rfl⟩
  · exact ⟨_, rfl⟩

theorem Deinterlaces.not_even (h : Deinterlaces pss width height) (hwidth : 0 < width)
    (hline : pss.bytesPerLine = pss.lineBytes width) (hheight : 0 < height)
    (hsmall : pss.bytesPerLine * height < 2 ^ 31)
    (hlineart : (Deinterlacer.init pss (baseSource pss)).chLineart = false) :
    (Deinterlacer.init pss (baseSource pss)).chShiftEven = false := by
  by_contra heven
  rw [Bool.not_eq_false] at heven
  have hlines := init_lines hwidth hline
  have hpos : 0 < pss.bytesPerLine * height := Nat.mul_pos hlines.line hheight
  obtain ⟨m, hm⟩ := Nat.exists_eq_succ_of_ne_zero hpos.ne'
  let w : List SaneByte := 0 :: List.replicate m 0
  have hlen : w.length = pss.bytesPerLine * height := by
    rw [List.length_cons, List.length_replicate, hm]
  obtain ⟨fd, hfd⟩ := fd_one 0 (List.replicate m 0) (by rwa [hlen]) hlines.line
  obtain ⟨p, hp⟩ : ∃ p, p = Deinterlacer.init pss (baseSource pss) := ⟨_, rfl⟩
  rw [← hp] at hlines hlineart heven
  have hwrap : p.wrap = (p.chLineSize, p) := by
    have hfull : ¬ p.chPos ≥ p.chSize := by
      rw [hlines.size, hp]
      exact Nat.not_le_of_lt (Nat.mul_pos (hp ▸ hlines.line) (Nat.succ_pos _))
    rw [Deinterlacer.wrap, if_neg hfull, hp]
    rfl
  have hrefill : Deinterlacer.refill (baseSource pss)
      (p, .fd (FDSource.init w [.deliver 1, .again])) = some (.go (p.gotData [0], .fd fd)) := by
    have hstart : p.chPos % p.chLineSize = p.chNdata % p.chLineSize := by
      rw [hp]
      rfl
    have hget : (baseSource pss).get (.fd (FDSource.init w [.deliver 1, .again])) p.chLineSize =
        some (.good, [0], .fd fd) := by
      show ((FDSource.init w [.deliver 1, .again]).get p.chLineSize).map _ = _
      rw [hp]
      exact congrArg _ hfd
    rw [Deinterlacer.refill, if_pos hstart, hwrap, askSub, hget]
    rfl
  have hremaining : ¬ Deinterlacer.remaining (baseSource pss)
      (p, .fd (FDSource.init w [.deliver 1, .again])) ≤ 0 := by
    have hcount : saneInt w.length = w.length := saneInt_of_lt (by omega) (by omega)
    show ¬ saneInt (saneInt w.length + (p.chNdata - p.chPos)) ≤ 0
    have hnone : ((p.chNdata : Int) - p.chPos) = 0 := by
      rw [hp]
      rfl
    rw [hnone, Int.add_zero, hcount, hcount, hlen]
    omega
  have hget : (deinterlacerSource (baseSource pss)).get
      (p, .fd (FDSource.init w [.deliver 1, .again])) 1 =
        some (SaneStatus.good, [(p.gotData [0]).byte?.getD 0], ((p.gotData [0]).next, .fd fd)) := by
    show Deinterlacer.get (baseSource pss) _ 1 = _
    rw [Deinterlacer.get, transformLoop, if_neg (not_or.mpr ⟨Nat.one_ne_zero, hremaining⟩),
      hrefill]
    rfl
  have hrun : Gets (deinterlacerSource (baseSource pss)).toPullSource SaneStatus.good
      (p, .fd (FDSource.init w [.deliver 1, .again])) [1]
      (((p.gotData [0]).next, .fd fd), [(p.gotData [0]).byte?.getD 0]) :=
    Run.snoc .nil ⟨_, hget, rfl⟩
  subst hp
  obtain ⟨-, hearly, -⟩ := h w hlen _ (.fd _) _ _ _ hrun
  have hbad := even_early hlineart heven rfl rfl rfl hlines.bytes 0
  have hnext : (((Deinterlacer.init pss (baseSource pss)).gotData [0]).early ||
      ((Deinterlacer.init pss (baseSource pss)).gotData [0]).tooEarly) = false := hearly
  rw [hbad, Bool.or_true] at hnext
  cases hnext

/-! ### The sizes that come out right -/

/-- There is no line, or the odd columns are shifted and, in grey, the width is even or there
    is one line, in lineart the lines have one pixel, or an odd number below eight of them and
    no line above is needed. -/
def SnapScanScanner.ColumnsFit (pss : SnapScanScanner) (width height : Nat) : Prop :=
  height = 0 ∨ (pss.model = .perfection3490 ∧ pss.isGrey = true) ∧
    if pss.mode = .lineart then width = 1 ∨ width % 2 = 1 ∧ width < 8 ∧ height ≤ 8
    else width % 2 = 0 ∨ height ≤ 1

theorem init_shiftEven : (Deinterlacer.init pss (baseSource pss)).chShiftEven = false ↔
    pss.model = .perfection3490 ∧ pss.isGrey = true := by
  show (!(pss.model == .perfection3490 && pss.isGrey)) = false ↔ _
  rw [Bool.not_eq_false', Bool.and_eq_true, beq_iff_eq]

theorem init_lineart : (Deinterlacer.init pss (baseSource pss)).chLineart =
    decide (pss.mode = .lineart) := rfl

theorem init_offset (h : pss.model = .perfection3490) :
    (Deinterlacer.init pss (baseSource pss)).chOffset = 8 := if_pos h

theorem Deinterlaces.fits (h : Deinterlaces pss width height) (hwidth : 0 < width)
    (hline : pss.bytesPerLine = pss.lineBytes width)
    (hsmall : pss.bytesPerLine * height < 2 ^ 31) : pss.ColumnsFit width height := by
  have hlines := init_lines hwidth hline
  rcases Nat.eq_zero_or_pos height with hnone | hheight
  · exact .inl hnone
  · right
    have hwrong : ∀ {P : Prop}, (∃ w : List SaneByte, w.length = pss.bytesPerLine * height ∧
        ¬ (Deinterlacer.init pss (baseSource pss)).Pixels width w
          ((Deinterlacer.init pss (baseSource pss)).deinterlace w)) → P := by
      rintro P ⟨w, hlen, hwrong⟩
      exact absurd (h.image hlines.line hlen (by rwa [hlen])) hwrong
    by_cases hmode : pss.mode = .lineart
    · have hlineart := (init_lineart).trans (decide_eq_true hmode)
      have hodd : (Deinterlacer.init pss (baseSource pss)).chShiftEven = false := by
        by_contra heven
        rw [Bool.not_eq_false] at heven
        exact hwrong (lineart_even hlines hlineart heven hheight)
      have hgrey := (init_shiftEven).mp hodd
      refine ⟨hgrey, ?_⟩
      rw [if_pos hmode]
      by_cases hone : width = 1
      · exact .inl hone
      · right
        have hshort : width < 8 := by
          by_contra hwide
          exact hwrong (lineart_wide hlines hlineart hodd (by omega) hheight)
        refine ⟨?_, hshort, ?_⟩
        · by_contra hpair
          exact hwrong (lineart_short hlines hlineart hodd hshort (by omega) hheight)
        · by_contra hmore
          refine hwrong (lineart_late hlines hlineart hodd (by omega) hshort ?_)
          rw [init_offset hgrey.1]
          omega
    · have hlineart := (init_lineart).trans (decide_eq_false hmode)
      have hodd := h.not_even hwidth hline hheight hsmall hlineart
      refine ⟨(init_shiftEven).mp hodd, ?_⟩
      rw [if_neg hmode]
      by_contra hbad
      rw [not_or] at hbad
      exact hwrong (grey_exchanged hlines hlineart hodd (by omega) (by omega))

/-- An image without a line. -/
theorem pixels_nil (hlines : p.Lines width) : p.Pixels width [] (p.deinterlace []) := by
  have hnone : ∀ {n x}, ¬ p.pixelEnd n x ≤ (p.deinterlace []).length := by
    intro n x
    have hsome : 0 < (x + 1) * p.chBytesPerPixel := Nat.mul_pos (Nat.succ_pos x) hlines.bytes
    rw [Deinterlacer.pixelEnd, length_deinterlace, List.length_nil]
    split_ifs
    · omega
    · omega
  refine ⟨?_, ?_, ?_⟩
  · intro n x hx hend
    exact absurd hend hnone
  · intro n x hx hend
    exact absurd hend hnone
  · intro n x hx hend
    exact absurd hend hnone

/-- If the size fits, the whole output is right, and no byte is made too early. -/
theorem SnapScanScanner.ColumnsFit.image (h : pss.ColumnsFit width height) (hwidth : 0 < width)
    (hline : pss.bytesPerLine = pss.lineBytes width)
    (hlen : w.length = pss.bytesPerLine * height) :
    (Deinterlacer.init pss (baseSource pss)).Pixels width w
        ((Deinterlacer.init pss (baseSource pss)).deinterlace w) ∧
      ∀ {d t k}, (Deinterlacer.init pss (baseSource pss)).Inv w d t k → t ≤ w.length →
        d.chPos < d.chNdata → d.tooEarly = false := by
  have hlines := init_lines hwidth hline
  rcases h with rfl | ⟨hgrey, hsizes⟩
  · obtain rfl : w = [] := List.eq_nil_of_length_eq_zero hlen
    refine ⟨pixels_nil hlines, ?_⟩
    intro d t k hinv ht hready
    obtain ⟨q, hq⟩ := hinv.begins
    have hread : t = 0 := Nat.le_zero.mp ht
    omega
  · have hodd := (init_shiftEven).mpr hgrey
    by_cases hmode : pss.mode = .lineart
    · have hlineart := (init_lineart).trans (decide_eq_true hmode)
      rw [if_pos hmode] at hsizes
      constructor
      · apply lineart_pixels hlines hlineart hodd ?_ hlen
        rw [init_offset hgrey.1]
        exact hsizes
      · intro d t k hinv ht hready
        exact timely_lineart hlineart hinv
    · have hlineart := (init_lineart).trans (decide_eq_false hmode)
      rw [if_neg hmode] at hsizes
      refine ⟨grey_pixels hlines hlineart hodd hsizes hlen, ?_⟩
      intro d t k hinv ht hready
      exact timely_grey hlines hlineart hodd hsizes hlen hinv ht hready

/-- The deinterlacer puts the columns of all images of a size right if and only if the size
    fits. -/
theorem deinterlaces_iff (hwidth : 0 < width) (hline : pss.bytesPerLine = pss.lineBytes width)
    (hsmall : pss.bytesPerLine * height < 2 ^ 31) :
    Deinterlaces pss width height ↔ pss.ColumnsFit width height := by
  constructor
  · intro h
    exact h.fits hwidth hline hsmall
  · intro hfits w hlen b hb ns s out hrun
    have hw : w.length < 2 ^ 31 := by rwa [hlen]
    obtain ⟨hsized, h₀⟩ := @deinterlacer_init _ (baseSource pss) w False (BaseSource.At w) pss
      (init_lines hwidth hline).line _ (hb.at hw)
    obtain ⟨hpixels, htimely⟩ := hfits.image hwidth hline hlen
    have htransforms := @deinterlacer_transforms _ _ w _ False _ (fun _ => True) _ _ hsized
      (base_delivers hw pss fun _ => True) (fun _ _ => trivial) False.elim
      (fun hinv ht _ hready => htimely hinv ht hready)
    obtain ⟨hfront, t, hat, hinv, -⟩ := transform_gets htransforms (fun _ _ => rfl) h₀ hrun
    exact ⟨hinv.fresh, hinv.early, hpixels.front hfront⟩

/-- A grey scan of the Perfection 3490 with lines of `width` bytes. -/
def SnapScanScanner.grey (width : Nat) : SnapScanScanner :=
  ⟨.perfection3490, .greyscale, 8, width, width, width, 0, 0, 0, 0⟩

theorem deinterlaces_pair : Deinterlaces (.grey 2) 2 9 := by
  apply (deinterlaces_iff (by decide) rfl (by decide)).mpr
  exact .inr ⟨⟨rfl, rfl⟩, .inl rfl⟩

/-- With three pixels in a line the first pixel of the second line is a copy of the second. -/
theorem deinterlaces_exchanged : ¬ Deinterlaces (.grey 3) 3 2 := by
  have hrun : (runAll ((deinterlacerSource (baseSource (.grey 3))).collect SaneStatus.good) [6]
      ((Deinterlacer.init (.grey 3) (baseSource (.grey 3)), .buf (.init [1, 2, 3, 4, 5, 6])),
        [])).any (fun s => decide (s.2 = [1, 1, 3, 5, 5, 5])) := by
    decide +kernel
  obtain ⟨⟨s, out⟩, hs, hout⟩ := (Option.any_eq_true ..).mp hrun
  obtain rfl := of_decide_eq_true hout
  intro h
  obtain ⟨-, -, hpixels⟩ := h [1, 2, 3, 4, 5, 6] rfl _ .buf _ _ _ (gets_of_collect hs)
  have hsame := hpixels.unshifted (n := 1) (x := 0) (by decide) (by decide) rfl
  exact absurd (hsame 0 (by decide)) (by decide)

end SaneBackends
