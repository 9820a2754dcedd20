import SaneBackends.SnapscanChain

/-!
# The pixels of the RGB router of the SnapScan backend

A line of the input holds the red samples, then the green ones, then the blue ones.  Each
byte that the router gives is a byte of a sample of a certain line, the same in all runs.
-/

namespace SaneBackends

open PullStream LabelledRun

/-! ### Samples -/

/-- A sample has one byte, or two unless `bpp_scan` is eight. -/
def SnapScanScanner.sampleBytes (pss : SnapScanScanner) : Nat := if pss.bppScan = 8 then 1 else 2

/-- `chroma_offset[c]`. -/
def SnapScanScanner.offset (pss : SnapScanScanner) : Nat → Nat
  | 0 => pss.chromaOffset.1
  | 1 => pss.chromaOffset.2.1
  | _ => pss.chromaOffset.2.2

/-- Where byte `j` of sample `x` of a channel is in an input line. -/
def SnapScanScanner.sampleAt (pss : SnapScanScanner) (line c x j : Nat) : Nat :=
  c * (line / 3) + x * pss.sampleBytes + j

/-- Where it goes in an output line: the samples of a pixel are one behind the other. -/
def SnapScanScanner.pixelAt (pss : SnapScanScanner) (c x j : Nat) : Nat :=
  (3 * x + c) * pss.sampleBytes + j

section
variable {pss : SnapScanScanner} {line c x j : Nat}

theorem offset_le (h : Routable pss line) (c : Nat) : pss.offset c ≤ pss.chroma := by
  rcases c with - | - | c
  · exact h.red
  · exact h.green
  · exact h.blue

theorem pixelAt_lt (h : Routable pss line) (hc : c < 3) (hj : j < pss.sampleBytes)
    (hx : x * pss.sampleBytes + j < line / 3) : pss.pixelAt c x j < line := by
  unfold SnapScanScanner.pixelAt SnapScanScanner.sampleBytes at *
  rcases h.samples with ⟨hbpp, n, rfl⟩ | ⟨hbpp, n, rfl⟩
  · rw [if_pos hbpp] at hj hx ⊢
    omega
  · rw [if_neg hbpp] at hj hx ⊢
    omega

/-- An element of lists of equal lengths one behind the other. -/
theorem getElem?_flatMap_range {α : Type} {f : Nat → List α} {n m j i : Nat}
    (hlen : ∀ i, (f i).length = n) (hj : j < m) (hi : i < n) :
    ((List.range m).flatMap f)[n * j + i]? = (f j)[i]? := by
  obtain ⟨rest, hrest⟩ := prefix_drop_flatMap hlen hj
  rw [← List.getElem?_drop, ← hrest, List.getElem?_append_left (by rwa [hlen])]

/-- The bytes of the samples in the order of the pixels. -/
theorem getElem?_routeCells {α : Type} (h : Routable pss line) (channel : Nat → Nat → α)
    (hc : c < 3) (hj : j < pss.sampleBytes) (hx : x * pss.sampleBytes + j < line / 3) :
    (routeCells pss.bppScan (line / 3) (channel 0) (channel 1) (channel 2))[pss.pixelAt c x j]? =
      some (channel c (x * pss.sampleBytes + j)) := by
  unfold routeCells SnapScanScanner.pixelAt
  unfold SnapScanScanner.sampleBytes at *
  rcases h.samples with ⟨hbpp, -⟩ | ⟨hbpp, n, rfl⟩
  · rw [if_pos hbpp] at hj hx
    obtain rfl : j = 0 := by omega
    rw [if_pos hbpp, if_pos hbpp, Nat.mul_one, Nat.add_zero, Nat.mul_one, Nat.add_zero,
      getElem?_flatMap_range (n := 3) (fun _ => rfl) (by omega) hc]
    interval_cases c
    · rfl
    · rfl
    · rfl
  · rw [if_neg hbpp] at hj hx
    have hplace : (3 * x + c) * 2 + j = 6 * x + (c * 2 + j) := by omega
    rw [if_neg hbpp, if_neg hbpp, hplace,
      getElem?_flatMap_range (n := 6) (fun _ => rfl) (by omega) (by omega), Nat.mul_comm x]
    interval_cases c
    · interval_cases j
      · rfl
      · rfl
    · interval_cases j
      · rfl
      · rfl
    · interval_cases j
      · rfl
      · rfl

/-- A byte of the image that the router makes. -/
theorem getElem?_routedImage (h : Routable pss line) {w : List SaneByte} {k : Nat} (hc : c < 3)
    (hj : j < pss.sampleBytes) (hx : x * pss.sampleBytes + j < line / 3)
    (hk : k < w.length / line - pss.chroma) :
    (routedImage pss line w)[line * k + pss.pixelAt c x j]? =
      w[line * (k + pss.offset c) + pss.sampleAt line c x j]? := by
  have hoffset := offset_le h c
  have hinside : pss.sampleAt line c x j < line := by
    have hchannels : c * (line / 3) ≤ 2 * (line / 3) := Nat.mul_le_mul_right _ (by omega)
    unfold SnapScanScanner.sampleAt
    omega
  have hlines : line * (k + pss.offset c) + line ≤ w.length := by
    rw [← Nat.mul_succ]
    exact (Nat.mul_le_mul_left _ (by omega)).trans (Nat.mul_div_le w.length line)
  have hline : routedLine pss line (w.getD · 0) k = routeCells pss.bppScan (line / 3)
      (fun i => w.getD (line * (k + pss.offset 0) + 0 * (line / 3) + i) 0)
      (fun i => w.getD (line * (k + pss.offset 1) + 1 * (line / 3) + i) 0)
      (fun i => w.getD (line * (k + pss.offset 2) + 2 * (line / 3) + i) 0) := rfl
  rw [routedImage, getElem?_flatMap_range (length_routedLine h _) hk (pixelAt_lt h hc hj hx), hline,
    getElem?_routeCells h
      (fun c i => w.getD (line * (k + pss.offset c) + c * (line / 3) + i) 0) hc hj hx,
    Nat.add_assoc (line * (k + pss.offset c)), ← Nat.add_assoc (c * (line / 3))]
  rw [← SnapScanScanner.sampleAt, List.getD_eq_getElem?_getD, List.getElem?_eq_getElem (by omega),
    Option.getD_some]

end

/-! ### Runs -/

variable {pss : SnapScanScanner} {w : List SaneByte} {b : BaseSource} {c : SourceChain}
  {ns : List Nat} {out : List SaneByte}

/-- What a router gives in a run, also one in which it forgets what it holds. -/
theorem SourceChain.Counted.routed (h : c.Counted pss w b)
    (hroutable : Routable pss (c.source pss).bytesPerLine) {s : RGBRouter × c.State}
    (hrun : Gets (routerSource pss (c.source pss)).toPullSource SaneStatus.good
      (RGBRouter.init pss (c.source pss), c.init pss b) ns (s, out)) :
    out <+: routedImage pss (c.source pss).bytesPerLine (c.image pss w) ∧
      RGBRouter.At pss (c.source pss).bytesPerLine (c.image pss w) (fun _ => True) False h.At s
        out.length :=
  transform_gets
    (router_transforms hroutable h.whole h.delivers h.answers False.elim h.anywhere)
    (fun _ _ => rfl) (router_init hroutable h.starts) hrun

/-- As long as the requests end where they may, the router says that bytes remain until all
    lines have come, and above a base source that brings bytes it gives as many as are asked
    for. -/
theorem SourceChain.Counted.routes_all (h : c.Counted pss w b)
    (hroutable : Routable pss (c.source pss).bytesPerLine)
    (hbuffer : (c.source pss).bytesPerLine * (pss.chroma + 1) < 2 ^ 31)
    (hfills : RGBRouter.Fills pss ((c.image pss w).length / (c.source pss).bytesPerLine) b.Prompt)
    {s : RGBRouter × c.State} {total : Nat}
    (htotal : (routedImage pss (c.source pss).bytesPerLine (c.image pss w)).length = total)
    (hrun : FittingGets (routerSource pss (c.source pss)).toPullSource SaneStatus.good
      (RGBRouter.Fit pss (c.source pss).bytesPerLine total)
      (RGBRouter.init pss (c.source pss), c.init pss b) ns (s, out)) :
    (out.length < total → 0 < RGBRouter.remaining (c.source pss) s) ∧
      (c.Prompt s.2 → ∀ n, 0 < n → out.length + n ≤ total →
        RGBRouter.Fit pss (c.source pss).bytesPerLine total (out.length + n) →
        ∃ bytes s', RGBRouter.get pss (c.source pss) s n = some (.good, bytes, s') ∧
          bytes.length = n) := by
  subst htotal
  have hworks := h.route hroutable hbuffer hfills
  obtain ⟨-, hat, hmore⟩ := hworks.delivers.complete hworks.starts hrun
  constructor
  · intro hless
    refine hmore ?_
    rintro rfl
    exact lt_irrefl _ hless
  · intro hprompt n hn hle hfit
    obtain ⟨s', hget, -⟩ := hworks.answers hat hprompt hn hle hfit
    exact ⟨_, s', hget, length_take_drop hle⟩

/-- However the bytes are asked for and however they come, pixel `x` of output line `k` has
    the samples `x` of the input lines `k + chroma_offset[0]`, `k + chroma_offset[1]` and
    `k + chroma_offset[2]`, and the router has read and written cells of its buffers only.
    All lines come whose samples the input has, unless a request ends where the router
    forgets what it holds. -/
theorem router_pixels {ex : Bool} {s : (SourceChain.rgbRouter (sourceChain ex false false)).State}
    (hb : b.Holds pss w) (hfits : SourceChain.Fits pss w ex true)
    (hrun : Gets ((SourceChain.rgbRouter (sourceChain ex false false)).source pss).toPullSource
      SaneStatus.good ((SourceChain.rgbRouter (sourceChain ex false false)).init pss b) ns
      (s, out)) :
    let router := (SourceChain.rgbRouter (sourceChain ex false false)).source pss
    let line := ((sourceChain ex false false).source pss).bytesPerLine
    let input := (sourceChain ex false false).image pss w
    let total := line * (input.length / line - pss.chroma)
    (∀ k x c j, c < 3 → j < pss.sampleBytes → x * pss.sampleBytes + j < line / 3 →
      line * k + pss.pixelAt c x j < out.length →
      out[line * k + pss.pixelAt c x j]? =
        input[line * (k + pss.offset c) + pss.sampleAt line c x j]?) ∧
    out.length ≤ total ∧
    (RGBRouter.Fills pss (input.length / line) b.Prompt →
      FittingGets router.toPullSource SaneStatus.good (RGBRouter.Fit pss line total)
        ((SourceChain.rgbRouter (sourceChain ex false false)).init pss b) ns (s, out) →
      (out.length < total → 0 < router.remaining s) ∧
      ((SourceChain.rgbRouter (sourceChain ex false false)).Prompt s →
        ∀ n, 0 < n → out.length + n ≤ total → RGBRouter.Fit pss line total (out.length + n) →
        ∃ bytes s', router.get s n = some (.good, bytes, s') ∧ bytes.length = n)) ∧
    s.1.stale = false ∧ s.1.cbuf.length = line * (pss.chroma + 1) ∧ s.1.xbuf.length = line := by
  intro router line input total
  obtain ⟨hroutable, hbuffer⟩ := hfits.routable rfl
  obtain ⟨hbelow⟩ := below_counted hb hfits
  have hlen : (routedImage pss line input).length = total := length_routedImage hroutable input
  obtain ⟨hfront, ⟨t, next, hat, hinv, hmore⟩, -⟩ := hbelow.routed hroutable hrun
  have hall := hfront.length_le
  rw [hlen] at hall
  refine ⟨?_, hall, ?_, hinv.fresh, hinv.cells, hinv.xcells⟩
  · intro k x c j hc hj hx hgiven
    have hk : k < input.length / line - pss.chroma := by
      have hless := (Nat.le_add_right (line * k) _).trans_lt (hgiven.trans_le hall)
      exact Nat.lt_of_mul_lt_mul_left hless
    obtain ⟨rest, hrest⟩ := hfront
    rw [← getElem?_routedImage hroutable hc hj hx hk, ← hrest, List.getElem?_append_left hgiven]
  · intro hfills hfitting
    exact hbelow.routes_all hroutable hbuffer hfills hlen hfitting

/-- Three lines, the first fill interrupted: the green sample is one line late. -/
theorem router_pixels_late :
    let router := (SourceChain.rgbRouter .base).source (.late 1)
    let w : List SaneByte := [1, 2, 3, 4, 5, 6, 7, 8, 9]
    let answers := [.deliver 4, .again, .again, .deliver 2, .deliver 1, .deliver 1, .deliver 1]
    ∃ (s : (SourceChain.rgbRouter .base).State) (out : List SaneByte),
      Gets router.toPullSource SaneStatus.good
        ((SourceChain.rgbRouter .base).init (.late 1) (.fd (.init w answers))) [2, 2] (s, out) ∧
      out.length = 2 ∧ out[0]? = w[0]? ∧ out[1]? = w[4]? ∧ 0 < router.remaining s ∧
      (∃ bytes s', router.get s 4 = some (.good, bytes, s') ∧ bytes.length = 4) ∧
      s.1.stale = false ∧ s.1.cbuf.length = 6 ∧ s.1.xbuf.length = 3 := by
  intro router w answers
  have hrun : (runAll (router.collect SaneStatus.good) [2, 2]
      ((SourceChain.rgbRouter .base).init (.late 1) (.fd (.init w answers)), [])).any (fun s =>
        decide (s.2.length = 2) && decide ((SourceChain.rgbRouter .base).bottom s.1 =
          .fd ⟨[7, 8, 9], 3, [.deliver 1, .deliver 1, .deliver 1]⟩)) := by
    decide +kernel
  obtain ⟨⟨s, out⟩, hs, hfacts⟩ := (Option.any_eq_true ..).mp hrun
  simp only [Bool.and_eq_true, decide_eq_true_eq] at hfacts
  obtain ⟨hout, hbase⟩ := hfacts
  have hfits : SourceChain.Fits (.late 1) w false true := by
    refine ⟨by decide, by decide, fun h => Bool.noConfusion h, by decide, fun _ => ⟨?_, by decide⟩⟩
    exact ⟨by decide, .inl ⟨rfl, by decide⟩, by decide, by decide, by decide⟩
  have hfit : ∀ line total e, RGBRouter.Fit (.late 1) line total e := by
    intro line total e hnone
    exact absurd hnone (by decide)
  have hprompt : (SourceChain.rgbRouter .base).Prompt s := by
    rw [SourceChain.Prompt, hbase]
    refine ⟨?_, by decide⟩
    simp [ReadAnswer.Brings]
  obtain ⟨hpixels, -, hcomplete, hfresh, hcells, hxcells⟩ :=
    @router_pixels (.late 1) w _ _ out false s (.fd answers) hfits (gets_of_collect hs)
  obtain ⟨hmore, hnext⟩ :=
    hcomplete (.inr (.inl (by decide))) (gets_fitting (gets_of_collect hs) (hfit _ _))
  refine ⟨s, out, gets_of_collect hs, hout, ?_, ?_, ?_, ?_, hfresh, hcells, hxcells⟩
  · refine hpixels 0 0 0 0 (by decide) (by decide) (by decide) ?_
    rw [hout]
    decide
  · refine hpixels 0 0 1 0 (by decide) (by decide) (by decide) ?_
    rw [hout]
    decide
  · refine hmore ?_
    rw [hout]
    decide
  · refine hnext hprompt 4 (by decide) ?_ (hfit _ _ _)
    rw [hout]
    decide

end SaneBackends
