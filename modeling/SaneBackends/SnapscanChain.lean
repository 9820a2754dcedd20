import SaneBackends.SnapscanExpander
import SaneBackends.SnapscanDeinterlacer
import SaneBackends.SnapscanRouter

/-!
# The source chains of the SnapScan backend

What a chain gives is its image of the input, in whatever pieces the bytes are asked for and
however few of them come at once, and it says that bytes remain until the image is complete.
As long as the reads below bring something, nothing is missing from a piece.  Two things are
asked of the sizes: that the router does not forget what it holds, and that the deinterlacer
does not need a pixel before it has been read.
-/

namespace SaneBackends

open PullStream LabelledRun

/-! ### The image of the input -/

/-- What a chain makes of the input. -/
def SourceChain.image (pss : SnapScanScanner) (w : List SaneByte) : SourceChain → List SaneByte
  | .base => w
  | .expander c => expandBytes (c.image pss w)
  | .rgbRouter c => routedImage pss (c.source pss).bytesPerLine (c.image pss w)
  | .deinterlacer c => (Deinterlacer.init pss (c.source pss)).deinterlace (c.image pss w)

/-- The base source that a chain reads. -/
def SourceChain.bottom : (c : SourceChain) → c.State → BaseSource
  | .base, s => s
  | .expander c, s => c.bottom s.2
  | .rgbRouter c, s => c.bottom s.2
  | .deinterlacer c, s => c.bottom s.2

def SourceChain.Prompt (c : SourceChain) (s : c.State) : Prop := (c.bottom s).Prompt

/-- Where the requests may end. -/
def SourceChain.Fit (pss : SnapScanScanner) (w : List SaneByte) : SourceChain → Nat → Prop
  | .rgbRouter c => RGBRouter.Fit pss (c.source pss).bytesPerLine
      (routedImage pss (c.source pss).bytesPerLine (c.image pss w)).length
  | .base | .expander _ | .deinterlacer _ => fun _ => True

/-- A router gives whole lines, and so do the others above a prompt source. -/
def SourceChain.WholeLines (b : BaseSource) : SourceChain → Prop
  | .rgbRouter _ => True
  | .base | .expander _ | .deinterlacer _ => b.Prompt

/-- The first round of the router is not interrupted close to the end of the input, and the
    neighbours that the deinterlacer needs come in time. -/
def SourceChain.Regular (pss : SnapScanScanner) (w : List SaneByte) (b : BaseSource) :
    SourceChain → Prop
  | .base => True
  | .expander c => c.Regular pss w b
  | .rgbRouter c => RGBRouter.Fills pss
      ((c.image pss w).length / (c.source pss).bytesPerLine) b.Prompt ∧ c.Regular pss w b
  | .deinterlacer c => (Deinterlacer.init pss (c.source pss)).Timely (c.image pss w).length
      (c.WholeLines b) ∧ c.Regular pss w b

/-- Every byte has been computed from cells that had been filled. -/
def SourceChain.Fresh : (c : SourceChain) → c.State → Prop
  | .base, _ => True
  | .expander c, s => s.1.stale = false ∧ c.Fresh s.2
  | .rgbRouter c, s => s.1.stale = false ∧ c.Fresh s.2
  | .deinterlacer c, s => s.1.stale = false ∧ c.Fresh s.2

/-- The pixels of a line fill the bytes of each channel. -/
structure Expandable (pss : SnapScanScanner) : Prop where
  channels : 3 ∣ pss.bytesPerLine
  pixels : pss.pixelsPerLine = 8 * (pss.bytesPerLine / 3)

/-- The input and the sizes fit a chain: whole lines, and counts that are below 2^31. -/
structure SourceChain.Fits (pss : SnapScanScanner) (w : List SaneByte) (ex rgb : Bool) : Prop where
  line : 0 < pss.bytesPerLine
  whole : pss.bytesPerLine ∣ w.length
  expandable : ex = true → Expandable pss
  small : if ex then 8 * w.length + 8 * (pss.bytesPerLine / 3) < 2 ^ 31 else w.length < 2 ^ 31
  routable : rgb = true →
    let line := ((sourceChain ex false false).source pss).bytesPerLine
    Routable pss line ∧ line * (pss.chroma + 1) < 2 ^ 31

/-! ### What holds of each chain -/

/-- A chain on the base source `b` gives its image of `w`. -/
structure SourceChain.Works (pss : SnapScanScanner) (w : List SaneByte) (b : BaseSource)
    (c : SourceChain) where
  slack : Nat
  At : c.State → Nat → Prop
  delivers : Delivers (c.source pss).toPullSource SaneStatus.good (c.image pss w) slack
    (c.Fit pss w) At
  answers : Answers (c.source pss).toPullSource SaneStatus.good (c.image pss w) (c.Fit pss w) At
    c.Prompt
  starts : At (c.init pss b) 0
  whole : (c.source pss).bytesPerLine ∣ (c.image pss w).length
  fit : ∀ e, (c.source pss).bytesPerLine ∣ e → c.Fit pss w e
  lines : c.WholeLines b → GivesLines (c.source pss) (c.source pss).bytesPerLine At
  prompt : b.Prompt → ∀ {s k}, At s k → c.Prompt s
  fresh : ∀ {s k}, At s k → c.Fresh s
  low : ∀ {s k}, At s k → -2 ^ 31 ≤ (c.source pss).remaining s
  small : (c.image pss w).length + slack < 2 ^ 31

/-- Requests may end anywhere, and it never says that less remains than it will give. -/
structure SourceChain.Counted (pss : SnapScanScanner) (w : List SaneByte) (b : BaseSource)
    (c : SourceChain) extends c.Works pss w b where
  counts : Counts (c.source pss).toPullSource (c.image pss w) At
  anywhere : ∀ e, c.Fit pss w e

variable {pss : SnapScanScanner} {w : List SaneByte} {b : BaseSource} {c : SourceChain}

/-- `k` bytes have been given by a base source that stays prompt if it was so at first. -/
def BaseSource.Stays (b : BaseSource) (w : List SaneByte) (s : BaseSource) (k : Nat) : Prop :=
  s.At w k ∧ (b.Prompt → s.Prompt)

theorem stays_delivers (hw : w.length < 2 ^ 31) (pss : SnapScanScanner) (b : BaseSource) :
    Delivers (baseSource pss).toPullSource SaneStatus.good w 0 (fun _ => True) (b.Stays w) :=
  (base_delivers hw pss _).and fun hprompt hget hb => baseGet_keeps (hprompt hb) hget

theorem stays_answers (hw : w.length < 2 ^ 31) (pss : SnapScanScanner) (b : BaseSource) :
    Answers (baseSource pss).toPullSource SaneStatus.good w (fun _ => True) (b.Stays w)
      BaseSource.Prompt := by
  intro s k n hs
  exact base_answers hw pss (fun _ => True) hs.1

def baseCounted (hb : b.Holds pss w) (hline : 0 < pss.bytesPerLine) (hw : w.length < 2 ^ 31)
    (hwhole : pss.bytesPerLine ∣ w.length) : SourceChain.base.Counted pss w b where
  slack := 0
  At := b.Stays w
  delivers := stays_delivers hw pss b
  answers := stays_answers hw pss b
  starts := ⟨hb.at hw, id⟩
  whole := hwhole
  fit _ _ := trivial
  lines hprompt := givesLines_of_prompt hline hwhole (fun _ _ => trivial) (stays_delivers hw pss b)
    (stays_answers hw pss b) fun hs => hs.2 hprompt
  prompt hprompt _ _ hs := hs.2 hprompt
  fresh _ := trivial
  low {s k} h := by
    have hle := BaseSource.At.le h.1
    show -2 ^ 31 ≤ BaseSource.remaining s
    rw [BaseSource.At.remaining h.1 hw]
    omega
  small := hw
  counts h := base_counts hw pss h.1
  anywhere _ := trivial

def expanderCounted (hb : b.Holds pss w) (hline : 0 < pss.bytesPerLine)
    (hwhole : pss.bytesPerLine ∣ w.length) (hexpandable : Expandable pss)
    (hsmall : 8 * w.length + 8 * (pss.bytesPerLine / 3) < 2 ^ 31) :
    (SourceChain.expander .base).Counted pss w b :=
  have hthree : pss.bytesPerLine = 3 * (pss.bytesPerLine / 3) :=
    (Nat.mul_div_cancel' hexpandable.channels).symm
  have hw : w.length < 2 ^ 31 := by omega
  have hsize : 0 < pss.bytesPerLine / 3 := by omega
  have hchannels : pss.bytesPerLine / 3 ∣ w.length :=
    (Dvd.intro_left 3 hthree.symm).trans hwhole
  have hdelivers := @expander_delivers _ _ w 0 _ _ (fun _ => True) _ hsize hexpandable.pixels
    hchannels (stays_delivers hw pss b) (fun _ => trivial) (fun hs => base_counts hw pss hs.1)
    (by omega)
  have hanswers : Answers (expanderSource (baseSource pss)).toPullSource SaneStatus.good
      (expandBytes w) (fun _ => True) (Expander.At (pss.bytesPerLine / 3) w (b.Stays w))
      (fun s => s.2.Prompt) :=
    expander_answers hsize hchannels (stays_delivers hw pss b) (stays_answers hw pss b)
      (fun _ => trivial) hdelivers.1
  have himage : pss.pixelsPerLine * 3 ∣ (expandBytes w).length := by
    rw [length_expandBytes, hexpandable.pixels, Nat.mul_assoc]
    apply Nat.mul_dvd_mul_left
    rwa [Nat.mul_comm, ← hthree]
  have hpixels : 0 < pss.pixelsPerLine * 3 := by
    have := hexpandable.pixels
    omega
  { slack := 8 * 0 + 8 * (pss.bytesPerLine / 3)
    At := Expander.At (pss.bytesPerLine / 3) w (b.Stays w)
    delivers := hdelivers.1
    answers := hanswers
    starts := expander_init hthree hexpandable.pixels ⟨hb.at hw, id⟩
    whole := himage
    fit := fun _ _ => trivial
    lines := by
      intro hprompt
      refine givesLines_of_prompt hpixels himage (fun _ _ => trivial) hdelivers.1 hanswers ?_
      rintro s k ⟨t, hs, -⟩
      exact hs.2 hprompt
    prompt := by
      rintro hprompt s k ⟨t, hs, -⟩
      exact hs.2 hprompt
    fresh := by
      rintro s k ⟨t, -, hinv⟩
      exact ⟨hinv.fresh, trivial⟩
    low := by
      intro s k h
      have hle := hdelivers.1.le h
      have hcounts : ((expandBytes w).length : Int) ≤
          k + (expanderSource (baseSource pss)).remaining s := hdelivers.2 h
      show -2 ^ 31 ≤ (expanderSource (baseSource pss)).remaining s
      omega
    small := by
      show (expandBytes w).length + _ < 2 ^ 31
      rw [length_expandBytes]
      omega
    counts := hdelivers.2
    anywhere := fun _ => trivial }

/-- The router above a chain that counts what it gives. -/
def SourceChain.Counted.route (h : c.Counted pss w b)
    (hroutable : Routable pss (c.source pss).bytesPerLine)
    (hbuffer : (c.source pss).bytesPerLine * (pss.chroma + 1) < 2 ^ 31)
    (hfills : RGBRouter.Fills pss ((c.image pss w).length / (c.source pss).bytesPerLine)
      b.Prompt) :
    (SourceChain.rgbRouter c).Works pss w b :=
  have hdelivers := router_delivers hroutable h.whole hbuffer h.small h.delivers h.answers h.prompt
    h.anywhere h.counts hfills
  have hlength := length_routedImage hroutable (c.image pss w)
  { slack := h.slack
    At := RGBRouter.At pss (c.source pss).bytesPerLine (c.image pss w)
      ((SourceChain.rgbRouter c).Fit pss w) b.Prompt h.At
    delivers := hdelivers
    answers := router_answers hroutable h.whole h.delivers h.answers h.prompt h.anywhere hdelivers
    starts := router_init hroutable h.starts
    whole := by
      show (c.source pss).bytesPerLine ∣ (routedImage pss _ (c.image pss w)).length
      rw [hlength]
      exact Nat.dvd_mul_right _ _
    fit := by
      rintro e ⟨m, rfl⟩ -
      show (c.source pss).bytesPerLine * m + (c.source pss).bytesPerLine ≤
          (routedImage pss _ (c.image pss w)).length ∨
        (routedImage pss _ (c.image pss w)).length ≤ (c.source pss).bytesPerLine * m
      rw [hlength, ← Nat.mul_succ]
      rcases Nat.lt_or_ge m ((c.image pss w).length / (c.source pss).bytesPerLine - pss.chroma) with
        hbefore | hbehind
      · exact .inl (Nat.mul_le_mul_left _ hbefore)
      · exact .inr (Nat.mul_le_mul_left _ hbehind)
    lines := fun _ => router_lines hroutable h.whole h.delivers h.answers h.anywhere
    prompt := by
      rintro hprompt s k ⟨⟨t, next, hat, -⟩, -⟩
      exact h.prompt hprompt hat
    fresh := by
      rintro s k ⟨⟨t, next, hat, hinv, -⟩, -⟩
      exact ⟨hinv.fresh, h.fresh hat⟩
    low := by
      intro s k _
      show -2 ^ 31 ≤ RGBRouter.remaining (c.source pss) s
      unfold RGBRouter.remaining
      split_ifs
      · exact saneInt_ge _
      · exact saneInt_ge _
    small := by
      have hle : (routedImage pss (c.source pss).bytesPerLine (c.image pss w)).length ≤
          (c.image pss w).length := by
        rw [hlength]
        exact (Nat.mul_le_mul_left _ (Nat.sub_le _ _)).trans (Nat.mul_div_le _ _)
      have hsmall := h.small
      show (routedImage pss (c.source pss).bytesPerLine (c.image pss w)).length + h.slack < 2 ^ 31
      omega }

/-- The deinterlacer above any chain. -/
def SourceChain.Works.deinterlace (h : c.Works pss w b) (hline : 0 < (c.source pss).bytesPerLine)
    (htimely : (Deinterlacer.init pss (c.source pss)).Timely (c.image pss w).length
      (c.WholeLines b)) :
    (SourceChain.deinterlacer c).Works pss w b :=
  have hinit := @deinterlacer_init _ (c.source pss) (c.image pss w) (c.WholeLines b) h.At pss hline
    (c.init pss b) h.starts
  have hdelivers := @deinterlacer_delivers _ _ _ _ _ _ (fun _ => True) _ _ hinit.1 h.delivers h.fit
    h.lines htimely h.small h.low
  have hanswers := @deinterlacer_answers _ _ _ _ _ _ (fun _ => True) _ _ _ hinit.1 h.whole
    h.delivers h.answers h.fit h.lines htimely h.small h.low
  have hwhole : (c.source pss).bytesPerLine ∣
      ((Deinterlacer.init pss (c.source pss)).deinterlace (c.image pss w)).length := by
    rw [length_deinterlace]
    exact h.whole
  { slack := h.slack
    At := (Deinterlacer.init pss (c.source pss)).At (c.image pss w) (c.WholeLines b) h.At
    delivers := hdelivers
    answers := hanswers
    starts := hinit.2
    whole := hwhole
    fit := fun _ _ => trivial
    lines := by
      intro hprompt
      refine givesLines_of_prompt hline hwhole (fun _ _ => trivial) hdelivers hanswers ?_
      rintro s k ⟨t, hat, -⟩
      exact h.prompt hprompt hat
    prompt := by
      rintro hprompt s k ⟨t, hat, -⟩
      exact h.prompt hprompt hat
    fresh := by
      rintro s k ⟨t, hat, hinv, -⟩
      exact ⟨hinv.fresh, h.fresh hat⟩
    low := by
      intro s k _
      exact saneInt_ge _
    small := by
      show ((Deinterlacer.init pss (c.source pss)).deinterlace (c.image pss w)).length + _ < _
      rw [length_deinterlace]
      exact h.small }

/-- What is below a router counts what it gives. -/
theorem below_counted {ex rgb : Bool} (hb : b.Holds pss w) (hfits : SourceChain.Fits pss w ex rgb) :
    Nonempty ((sourceChain ex false false).Counted pss w b) := by
  have hsmall := hfits.small
  cases ex with
  | false => exact ⟨baseCounted hb hfits.line hsmall hfits.whole⟩
  | true => exact ⟨expanderCounted hb hfits.line hfits.whole (hfits.expandable rfl) hsmall⟩

theorem below_line {ex rgb : Bool} (hfits : SourceChain.Fits pss w ex rgb) :
    0 < ((sourceChain ex false false).source pss).bytesPerLine := by
  have hline := hfits.line
  cases ex with
  | false => exact hline
  | true =>
    have hpixels := (hfits.expandable rfl).pixels
    have hchannels := Nat.mul_div_cancel' (hfits.expandable rfl).channels
    show 0 < pss.pixelsPerLine * 3
    omega

theorem chain_works {ex rgb de : Bool} (hb : b.Holds pss w)
    (hfits : SourceChain.Fits pss w ex rgb)
    (hregular : (sourceChain ex rgb de).Regular pss w b) :
    Nonempty ((sourceChain ex rgb de).Works pss w b) := by
  obtain ⟨hcounted⟩ := below_counted hb hfits
  have hline := below_line hfits
  have hrouted : (sourceChain ex rgb false).Regular pss w b →
      Nonempty ((sourceChain ex rgb false).Works pss w b) ∧
        0 < ((sourceChain ex rgb false).source pss).bytesPerLine := by
    intro hregular
    cases rgb with
    | false => exact ⟨⟨hcounted.toWorks⟩, hline⟩
    | true =>
      obtain ⟨hroutable, hbuffer⟩ := hfits.routable rfl
      exact ⟨⟨hcounted.route hroutable hbuffer hregular.1⟩, hline⟩
  cases de with
  | false => exact (hrouted hregular).1
  | true =>
    obtain ⟨htimely, hbelow⟩ := hregular
    obtain ⟨⟨hworks⟩, hline⟩ := hrouted hbelow
    exact ⟨hworks.deinterlace hline htimely⟩

/-- However the bytes are asked for and however they come, a chain gives its image of the
    input from the front, each byte computed from data that has been read, and it says that
    bytes remain until all have been given.  As long as its base source brings bytes, it gives
    exactly the next ones that are asked for. -/
theorem chain_stream {ex rgb de : Bool} {ns : List Nat} {out : List SaneByte}
    {s : (sourceChain ex rgb de).State} (hb : b.Holds pss w)
    (hfits : SourceChain.Fits pss w ex rgb)
    (hregular : (sourceChain ex rgb de).Regular pss w b)
    (hrun : FittingGets ((sourceChain ex rgb de).source pss).toPullSource SaneStatus.good
      ((sourceChain ex rgb de).Fit pss w) ((sourceChain ex rgb de).init pss b) ns (s, out)) :
    let source := (sourceChain ex rgb de).source pss
    let image := (sourceChain ex rgb de).image pss w
    out <+: image ∧ (out ≠ image → 0 < source.remaining s) ∧ (sourceChain ex rgb de).Fresh s ∧
      ((sourceChain ex rgb de).Prompt s → ∀ n, 0 < n → out.length + n ≤ image.length →
        (sourceChain ex rgb de).Fit pss w (out.length + n) →
        ∃ s', source.get s n = some (.good, (image.drop out.length).take n, s')) := by
  intro source image
  obtain ⟨h⟩ := @chain_works _ _ _ ex rgb de hb hfits hregular
  obtain ⟨hfront, hat, hmore⟩ := h.delivers.complete h.starts hrun
  refine ⟨hfront, hmore, h.fresh hat, ?_⟩
  intro hprompt n hn hle hfit
  obtain ⟨s', hget, -⟩ := h.answers hat hprompt hn hle hfit
  exact ⟨s', hget⟩

/-- Colour scans with three bytes a line, of which the green ones are `chroma` lines late. -/
def SnapScanScanner.late (chroma : Nat) : SnapScanScanner :=
  ⟨.other, .colour, 8, 3, 1, 3, chroma, 0, chroma, 0⟩

/-- The first fill of the buffer is interrupted: the first request brings nothing, the next ones
    what was asked for. -/
theorem chain_stream_late :
    let source := (sourceChain false true false).source (.late 1)
    let answers := [.deliver 4, .again, .again, .deliver 2, .deliver 1, .deliver 1, .deliver 1]
    ∃ s : (sourceChain false true false).State,
      Gets source.toPullSource SaneStatus.good ((sourceChain false true false).init (.late 1)
        (.fd (.init [1, 2, 3, 4, 5, 6, 7, 8, 9] answers))) [2, 2] (s, [1, 5]) ∧
      0 < source.remaining s ∧ s.1.stale = false ∧
      ∃ s', source.get s 4 = some (.good, [3, 4, 8, 6], s') := by
  intro source answers
  have hrun : (runAll (source.collect SaneStatus.good) [2, 2]
      ((sourceChain false true false).init (.late 1)
        (.fd (.init [1, 2, 3, 4, 5, 6, 7, 8, 9] answers)), [])).any (fun s =>
          decide (s.2 = [1, 5]) && decide ((sourceChain false true false).bottom s.1 =
            .fd ⟨[7, 8, 9], 3, [.deliver 1, .deliver 1, .deliver 1]⟩)) := by
    decide +kernel
  obtain ⟨⟨s, out⟩, hs, hfacts⟩ := (Option.any_eq_true ..).mp hrun
  simp only [Bool.and_eq_true, decide_eq_true_eq] at hfacts
  obtain ⟨rfl, hbase⟩ := hfacts
  have hfits : SourceChain.Fits (.late 1) [1, 2, 3, 4, 5, 6, 7, 8, 9] false true := by
    refine ⟨by decide, by decide, fun h => Bool.noConfusion h, by decide, fun _ => ⟨?_, by decide⟩⟩
    exact ⟨by decide, .inl ⟨rfl, by decide⟩, by decide, by decide, by decide⟩
  have hfit : ∀ e, (sourceChain false true false).Fit (.late 1) [1, 2, 3, 4, 5, 6, 7, 8, 9] e := by
    intro e hnone
    exact absurd hnone (by decide)
  have hprompt : (sourceChain false true false).Prompt s := by
    rw [SourceChain.Prompt, hbase]
    refine ⟨?_, by decide⟩
    simp [ReadAnswer.Brings]
  obtain ⟨-, hmore, hfresh, hnext⟩ := @chain_stream (.late 1) _ _ false true false _ _ s
    (.fd answers) hfits ⟨.inr (.inl (by decide)), trivial⟩ (gets_fitting (gets_of_collect hs) hfit)
  have himage : (sourceChain false true false).image (.late 1) [1, 2, 3, 4, 5, 6, 7, 8, 9] =
      [1, 5, 3, 4, 8, 6] := by
    decide
  refine ⟨s, gets_of_collect hs, hmore (by rw [himage]; decide), hfresh.1, ?_⟩
  have hget := hnext hprompt 4 (by decide) (by rw [himage]; decide) (hfit _)
  rw [himage] at hget
  exact hget

/-- With a buffer of one line, a caller that asks for one byte is told that nothing remains,
    and one that asks for three gets three. -/
theorem chain_stream_forgets :
    ∃ s s' : (sourceChain false true false).State,
      Gets ((sourceChain false true false).source (.late 0)).toPullSource SaneStatus.good
        ((sourceChain false true false).init (.late 0) (.buf (.init [1, 2, 3]))) [1] (s, [1]) ∧
      ((sourceChain false true false).source (.late 0)).remaining s = 0 ∧
      Gets ((sourceChain false true false).source (.late 0)).toPullSource SaneStatus.good
        ((sourceChain false true false).init (.late 0) (.buf (.init [1, 2, 3]))) [3]
        (s', [1, 2, 3]) := by
  have hone : (runAll (((sourceChain false true false).source (.late 0)).collect SaneStatus.good)
      [1] ((sourceChain false true false).init (.late 0) (.buf (.init [1, 2, 3])), [])).any
        (fun s => decide (s.2 = [1]) &&
          decide (((sourceChain false true false).source (.late 0)).remaining s.1 = 0)) := by
    decide +kernel
  have hall : (runAll (((sourceChain false true false).source (.late 0)).collect SaneStatus.good)
      [3] ((sourceChain false true false).init (.late 0) (.buf (.init [1, 2, 3])), [])).any
        (fun s => decide (s.2 = [1, 2, 3])) := by
    decide +kernel
  obtain ⟨⟨s, out⟩, hs, hfacts⟩ := (Option.any_eq_true ..).mp hone
  obtain ⟨⟨s', out'⟩, hs', hout'⟩ := (Option.any_eq_true ..).mp hall
  simp only [Bool.and_eq_true, decide_eq_true_eq] at hfacts hout'
  obtain ⟨hout, hremaining⟩ := hfacts
  subst hout hout'
  exact ⟨s, s', gets_of_collect hs, hremaining, gets_of_collect hs'⟩

end SaneBackends
