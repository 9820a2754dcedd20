import SaneBackends.SnapscanBase

/-!
# The deinterlacer of the SnapScan backend

Every other column is shifted down by some lines, so that the deinterlacer keeps that
many lines and takes the shifted pixels from the oldest one.  In the first lines, where
there is none, it takes them from a neighbouring pixel, which need not be there yet.
-/

namespace SaneBackends

open Overwrite PullStream RingWindow

variable {σ : Type}

/-! ### What the output is -/

/-- Behind the first lines the shifted pixels are there. -/
def Deinterlacer.past (p : Deinterlacer) (k : Nat) : Bool := p.chLineSize * p.chOffset < k

/-- The column of byte `k` is shifted. -/
def Deinterlacer.shiftedAt (p : Deinterlacer) (k : Nat) : Bool :=
  { p with chPos := k % p.chSize }.shifted

/-- Where the byte of the neighbouring pixel is. -/
def Deinterlacer.neighbourAt (p : Deinterlacer) (k : Nat) : Nat :=
  if k % p.chLineSize = 0 then k + p.chBytesPerPixel else k - p.chBytesPerPixel

/-- Byte `k` of the output, for an input of which `w k` is byte `k`. -/
def Deinterlacer.output (p : Deinterlacer) (w : Nat → SaneByte) (k : Nat) : SaneByte :=
  let back := w (k - p.chLineSize * p.chOffset)
  if p.chLineart then lineartByte p.chShiftEven (p.past k) (w k) (if p.past k then back else 0)
  else if p.shiftedAt k then if p.past k then back else w (p.neighbourAt k)
  else w k

def Deinterlacer.deinterlace (p : Deinterlacer) (w : List SaneByte) : List SaneByte :=
  (List.range w.length).map (p.output (w.getD · 0))

@[simp] theorem length_deinterlace (p : Deinterlacer) (w : List SaneByte) :
    (p.deinterlace w).length = w.length := by
  rw [Deinterlacer.deinterlace, List.length_map, List.length_range]

theorem deinterlace_prefix {p : Deinterlacer} {w : List SaneByte} {k : Nat} (hk : k < w.length) :
    [p.output (w.getD · 0) k] <+: (p.deinterlace w).drop k := by
  rw [List.drop_eq_getElem_cons (by rwa [length_deinterlace])]
  simp [Deinterlacer.deinterlace]

/-! ### What the steps keep -/

/-- `d` has the sizes and the mode of `p`. -/
structure Deinterlacer.Like (p d : Deinterlacer) : Prop where
  chSize : d.chSize = p.chSize
  lineSize : d.chLineSize = p.chLineSize
  bytesPerPixel : d.chBytesPerPixel = p.chBytesPerPixel
  lineart : d.chLineart = p.chLineart
  offset : d.chOffset = p.chOffset
  shiftEven : d.chShiftEven = p.chShiftEven

/-- The buffer is one line longer than the shift. -/
structure Deinterlacer.Sized (p : Deinterlacer) : Prop where
  line : 0 < p.chLineSize
  size : p.chSize = p.chLineSize * (p.chOffset + 1)

/-- `t` bytes of `w` have been read, and `k` bytes made; what is there does not reach behind
    the end of a line. -/
structure Deinterlacer.Inv (p : Deinterlacer) (w : List SaneByte) (d : Deinterlacer) (t k : Nat) :
    Prop where
  like : p.Like d
  cells : d.chBuf.length = p.chSize
  ndata : d.chNdata ≤ p.chSize
  pos : d.chPos ≤ d.chNdata
  line : d.chNdata ≤ p.chLineSize * (d.chPos / p.chLineSize) + p.chLineSize
  begins : ∃ q, t = p.chSize * q + d.chNdata
  count : k + d.chNdata = t + d.chPos
  pastInit : d.chPastInit = p.past k
  window : Window d.chBuf w t
  fresh : d.stale = false
  early : d.early = false

/-- Between two turns there is less than a line; `whole` if only whole lines are read. -/
def Deinterlacer.At (p : Deinterlacer) (w : List SaneByte) (whole : Prop)
    (subAt : σ → Nat → Prop) (s : Deinterlacer × σ) (k : Nat) : Prop :=
  ∃ t, subAt s.2 t ∧ p.Inv w s.1 t k ∧ (whole → p.chLineSize ∣ s.1.chNdata) ∧
    s.1.chNdata < s.1.chPos + p.chLineSize

def Deinterlacer.Ready (p : Deinterlacer) (w : List SaneByte) (whole : Prop)
    (subAt : σ → Nat → Prop) (s : Deinterlacer × σ) (k : Nat) : Prop :=
  ∃ t, subAt s.2 t ∧ p.Inv w s.1 t k ∧ (whole → p.chLineSize ∣ s.1.chNdata) ∧
    s.1.chPos < s.1.chNdata

/-- In the first lines the neighbour of each shifted pixel comes before it, or, if only whole
    lines are read, in its line. -/
def Deinterlacer.Timely (p : Deinterlacer) (total : Nat) (whole : Prop) : Prop :=
  p.chLineart = true ∨ ∀ k < total, k ≤ p.chLineSize * p.chOffset → p.shiftedAt k = true →
    let neighbour : Int := { p with chPos := k }.neighbour
    0 ≤ neighbour ∧ (neighbour < (k : Int) ∨
      whole ∧ neighbour < ((p.chLineSize * (k / p.chLineSize) + p.chLineSize : Nat) : Int))

section
variable {psub : Source σ} {w : List SaneByte} {slack : Nat} {whole : Prop}
  {subFit fit : Nat → Prop} {subAt : σ → Nat → Prop} {prompt : σ → Prop} {p : Deinterlacer}

/-- Data is read exactly if there is none. -/
theorem fetch_iff {d : Deinterlacer} {t k : Nat} (h : p.Inv w d t k)
    (hnear : d.chNdata < d.chPos + p.chLineSize) :
    d.chPos % d.chLineSize = d.chNdata % d.chLineSize ↔ d.chPos = d.chNdata := by
  rw [h.like.lineSize]
  have hpos := h.pos
  constructor
  · intro hmod
    by_contra hne
    have hdvd := (Nat.modEq_iff_dvd' hpos).mp hmod
    have := Nat.le_of_dvd (by omega) hdvd
    omega
  · intro heq
    rw [heq]

theorem deinterlacer_wrap_inv {d : Deinterlacer} {t k : Nat} (h : p.Inv w d t k)
    (hsized : p.Sized) (hfetch : d.chPos = d.chNdata) :
    p.Inv w d.wrap.2 t k ∧ d.wrap.2.chPos = d.wrap.2.chNdata ∧
      d.wrap.2.chNdata < p.chSize ∧ d.wrap.2.chNdata + d.wrap.1 =
        p.chLineSize * (d.wrap.2.chPos / p.chLineSize) + p.chLineSize := by
  have hndata := h.ndata
  have hsize := hsized.size
  have hline := hsized.line
  have hle : p.chLineSize ≤ p.chSize := by
    rw [hsize]
    exact Nat.le_mul_of_pos_right _ (Nat.succ_pos _)
  have hchSize := h.like.chSize
  have hlineSize := h.like.lineSize
  rw [Deinterlacer.wrap]
  by_cases hfull : d.chPos ≥ d.chSize
  · rw [if_pos hfull]
    refine ⟨⟨⟨hchSize, hlineSize, h.like.bytesPerPixel, h.like.lineart, h.like.offset,
      h.like.shiftEven⟩, h.cells, Nat.zero_le _, le_rfl, ?_, ?_, ?_, h.pastInit, h.window, h.fresh,
      h.early⟩, rfl, ?_, ?_⟩
    · exact Nat.zero_le _
    · obtain ⟨q, hq⟩ := h.begins
      refine ⟨q + 1, ?_⟩
      show t = p.chSize * (q + 1) + 0
      rw [Nat.mul_succ, hq]
      omega
    · have hcount := h.count
      show k + 0 = t + 0
      omega
    · show 0 < p.chSize
      omega
    · show 0 + d.chLineSize = p.chLineSize * (0 / p.chLineSize) + p.chLineSize
      rw [Nat.zero_div, Nat.mul_zero, hlineSize]
  · rw [if_neg hfull]
    refine ⟨h, hfetch, ?_, ?_⟩
    · show d.chNdata < p.chSize
      omega
    · show d.chNdata + (d.chLineSize - d.chNdata % d.chLineSize) =
        p.chLineSize * (d.chPos / p.chLineSize) + p.chLineSize
      have hdiv := Nat.div_add_mod d.chNdata p.chLineSize
      have hmod := Nat.mod_lt d.chNdata hline
      rw [hfetch, hlineSize]
      omega

/-- What is asked for ends with a line. -/
theorem deinterlacer_asks {d : Deinterlacer} {t k : Nat} (h : p.Inv w d.wrap.2 t k)
    (hsized : p.Sized) (hend : d.wrap.2.chNdata + d.wrap.1 =
      p.chLineSize * (d.wrap.2.chPos / p.chLineSize) + p.chLineSize) :
    p.chLineSize ∣ t + d.wrap.1 := by
  obtain ⟨q, hq⟩ := h.begins
  have hlines : p.chLineSize ∣ p.chSize * q := by
    rw [hsized.size, Nat.mul_assoc]
    exact Nat.dvd_mul_right _ _
  rw [hq, Nat.add_assoc, hend]
  exact Nat.dvd_add hlines (Nat.dvd_add (Nat.dvd_mul_right _ _) (dvd_refl _))

/-- If only whole lines have been read, a line is asked for. -/
theorem deinterlacer_asks_line {d : Deinterlacer} {t k : Nat} (h : p.Inv w d.wrap.2 t k)
    (hsized : p.Sized) (hfetch : d.wrap.2.chPos = d.wrap.2.chNdata)
    (hwhole : p.chLineSize ∣ d.wrap.2.chNdata)
    (hend : d.wrap.2.chNdata + d.wrap.1 =
      p.chLineSize * (d.wrap.2.chPos / p.chLineSize) + p.chLineSize) :
    d.wrap.1 = p.chLineSize ∧ p.chLineSize ∣ t := by
  obtain ⟨q, hq⟩ := h.begins
  rw [hfetch, Nat.mul_div_cancel' hwhole] at hend
  constructor
  · omega
  · rw [hq, hsized.size, Nat.mul_assoc]
    exact Nat.dvd_add (Nat.dvd_mul_right _ _) hwhole

theorem wrap_whole {d : Deinterlacer} (h : p.chLineSize ∣ d.chNdata) :
    p.chLineSize ∣ d.wrap.2.chNdata := by
  unfold Deinterlacer.wrap
  split_ifs
  · exact Nat.dvd_zero _
  · exact h

/-- Data that the source below has given is stored behind what is there. -/
theorem deinterlacer_gotData_inv {d : Deinterlacer} {t k n : Nat} {bytes : List SaneByte}
    (h : p.Inv w d t k) (hsized : p.Sized) (hfetch : d.chPos = d.chNdata)
    (hroom : d.chNdata < p.chSize)
    (hn : d.chNdata + n ≤ p.chLineSize * (d.chPos / p.chLineSize) + p.chLineSize)
    (hfront : bytes <+: w.drop t) (hlen : bytes.length ≤ n) (hnone : bytes ≠ []) :
    p.Inv w (d.gotData bytes) (t + bytes.length) k ∧
      (d.gotData bytes).chPos < (d.gotData bytes).chNdata := by
  obtain ⟨q, hq⟩ := h.begins
  have hpos : 0 < bytes.length := List.length_pos_iff.mpr hnone
  have hmod : t % d.chBuf.length = d.chPos := by
    rw [h.cells, hq, hfetch, Nat.mul_add_mod, Nat.mod_eq_of_lt hroom]
  -- the end of the line is not behind the end of the buffer
  have hfit : d.chNdata + bytes.length ≤ p.chSize := by
    have hdiv : d.chPos / p.chLineSize < p.chOffset + 1 := by
      rw [Nat.div_lt_iff_lt_mul hsized.line, Nat.mul_comm, ← hsized.size, hfetch]
      exact hroom
    have hline : p.chLineSize * (d.chPos / p.chLineSize) + p.chLineSize ≤ p.chSize := by
      rw [hsized.size, ← Nat.mul_succ]
      exact Nat.mul_le_mul_left _ hdiv
    omega
  refine ⟨⟨⟨h.like.chSize, h.like.lineSize, h.like.bytesPerPixel, h.like.lineart, h.like.offset,
    h.like.shiftEven⟩, ?_, hfit, ?_, ?_, ⟨q, ?_⟩, ?_, h.pastInit, ?_, h.fresh, h.early⟩, ?_⟩
  · refine (length_overwrite ?_).trans h.cells
    rw [h.cells, List.length_map, hfetch]
    exact hfit
  · show d.chPos ≤ d.chNdata + bytes.length
    omega
  · show d.chNdata + bytes.length ≤ p.chLineSize * (d.chPos / p.chLineSize) + p.chLineSize
    omega
  · show t + bytes.length = p.chSize * q + (d.chNdata + bytes.length)
    omega
  · have hcount := h.count
    show k + (d.chNdata + bytes.length) = t + bytes.length + d.chPos
    omega
  · show Window (overwrite d.chBuf d.chPos (bytes.map some)) w (t + bytes.length)
    rw [← hmod]
    apply h.window.store hfront
    rw [hmod, h.cells, hfetch]
    exact hfit
  · show d.chPos < d.chNdata + bytes.length
    omega

/-- In the first lines the neighbouring pixel is read where it is, unless it is too early. -/
theorem readCell_neighbour {d : Deinterlacer} {t k : Nat} (h : p.Inv w d t k) (hsized : p.Sized)
    (ht : t ≤ w.length) (hpast : p.past k = false)
    (hthere : ¬ (d.neighbour < 0 ∨ d.chNdata ≤ d.neighbour)) :
    readCell d.chBuf d.neighbour = some (w.getD (p.neighbourAt k) 0) := by
  obtain ⟨q, hq⟩ := h.begins
  have hcount := h.count
  have hndata := h.ndata
  have hsize := hsized.size
  have hline := hsized.line
  rw [Nat.mul_succ] at hsize
  have hfirst : ¬ p.chLineSize * p.chOffset < k := of_decide_eq_false hpast
  obtain rfl : q = 0 := by
    by_contra hne
    have := Nat.le_mul_of_pos_right p.chSize (Nat.pos_of_ne_zero hne)
    omega
  have hk : k = d.chPos := by omega
  have hplace : d.neighbour = p.neighbourAt k := by
    have hnonneg : 0 ≤ d.neighbour := by omega
    unfold Deinterlacer.neighbour at hnonneg ⊢
    rw [h.like.lineSize, h.like.bytesPerPixel] at hnonneg ⊢
    rw [Deinterlacer.neighbourAt, hk]
    split_ifs at hnonneg ⊢
    · exact (Nat.cast_add ..).symm
    · omega
  rw [hplace] at hthere ⊢
  have hread := @readCell_window w d.chBuf t (p.neighbourAt k) h.window (by omega)
    (by rw [h.cells]; omega) ht
  rwa [Nat.mod_eq_of_lt (by rw [h.cells]; omega)] at hread

/-- Unless it is too early, the byte that comes next is the byte of the output. -/
theorem deinterlacer_byte {d : Deinterlacer} {t k : Nat} (h : p.Inv w d t k) (hsized : p.Sized)
    (ht : t ≤ w.length) (hready : d.chPos < d.chNdata) (hearly : d.tooEarly = false) :
    d.byte? = some (p.output (w.getD · 0) k) := by
  obtain ⟨q, hq⟩ := h.begins
  have hcount := h.count
  have hndata := h.ndata
  have hline := h.line
  have hdivle := Nat.mul_div_le d.chPos p.chLineSize
  have hsize := hsized.size
  rw [Nat.mul_succ] at hsize
  have hk : k = p.chSize * q + d.chPos := by omega
  have hplace : k % p.chSize = d.chPos := by
    rw [hk, Nat.mul_add_mod, Nat.mod_eq_of_lt (by omega)]
  have hhere : readCell d.chBuf d.chPos = some (w.getD k 0) := by
    have hread := @readCell_window w d.chBuf t k h.window (by omega) (by rw [h.cells]; omega) ht
    rwa [h.cells, hplace] at hread
  have hback : p.past k = true → readCell d.chBuf d.linesBack =
      some (w.getD (k - p.chLineSize * p.chOffset) 0) := by
    intro hpast
    have hpast' : p.chLineSize * p.chOffset < k := of_decide_eq_true hpast
    have hread := @readCell_window w d.chBuf t (k - p.chLineSize * p.chOffset) h.window (by omega)
      (by rw [h.cells]; omega) ht
    have hmod : (k - p.chLineSize * p.chOffset) % p.chSize = d.linesBack := by
      rw [Deinterlacer.linesBack, h.like.lineSize, h.like.chSize, ← hplace, Nat.mod_add_mod]
      have hround : k + p.chLineSize = (k - p.chLineSize * p.chOffset) + p.chSize := by omega
      rw [hround, Nat.add_mod_right]
    rwa [h.cells, hmod] at hread
  have hshifted : d.shifted = p.shiftedAt k := by
    rw [Deinterlacer.shiftedAt, Deinterlacer.shifted, Deinterlacer.shifted, hplace,
      h.like.bytesPerPixel, h.like.shiftEven]
  unfold Deinterlacer.byte? Deinterlacer.output
  rw [h.like.lineart, h.pastInit, hshifted, h.like.shiftEven, hhere]
  cases hlineart : p.chLineart with
  | true =>
    cases hpast : p.past k with
    | true =>
      rw [hback hpast]
      rfl
    | false => rfl
  | false =>
    cases hshift : p.shiftedAt k with
    | true =>
      cases hpast : p.past k with
      | true => exact hback hpast
      | false =>
        apply readCell_neighbour h hsized ht hpast
        rw [Deinterlacer.tooEarly, h.like.lineart, h.pastInit, hlineart, hpast, hshifted,
          hshift] at hearly
        simpa using hearly
    | false => rfl

theorem deinterlacer_next_inv {d : Deinterlacer} {t k : Nat} (h : p.Inv w d t k)
    (hsized : p.Sized) (ht : t ≤ w.length) (hready : d.chPos < d.chNdata)
    (hearly : d.tooEarly = false) :
    p.Inv w d.next t (k + 1) ∧ d.next.chNdata < d.next.chPos + p.chLineSize := by
  have hcount := h.count
  have hline := h.line
  have hdivle := Nat.mul_div_le d.chPos p.chLineSize
  obtain ⟨q, hq⟩ := h.begins
  refine ⟨⟨⟨h.like.chSize, h.like.lineSize, h.like.bytesPerPixel, h.like.lineart, h.like.offset,
    h.like.shiftEven⟩, h.cells, h.ndata, hready, ?_, ⟨q, hq⟩, ?_, ?_, h.window, ?_, ?_⟩, ?_⟩
  · show d.chNdata ≤ p.chLineSize * ((d.chPos + 1) / p.chLineSize) + p.chLineSize
    have hmono : p.chLineSize * (d.chPos / p.chLineSize) ≤
        p.chLineSize * ((d.chPos + 1) / p.chLineSize) :=
      Nat.mul_le_mul_left _ (Nat.div_le_div_right (Nat.le_succ _))
    omega
  · show k + 1 + d.chNdata = t + (d.chPos + 1)
    omega
  · show (d.chPastInit || decide (d.chLineSize * d.chOffset ≤ d.chPos)) = p.past (k + 1)
    rw [h.pastInit, h.like.lineSize, h.like.offset, Deinterlacer.past, Deinterlacer.past,
      ← Bool.decide_or]
    apply decide_eq_decide.mpr
    have hsize := hsized.size
    rw [Nat.mul_succ] at hsize
    have hndata := h.ndata
    constructor
    · rintro (hpast | hpast)
      · omega
      · omega
    · intro hpast
      rcases Nat.lt_or_ge (p.chLineSize * p.chOffset) k with hlt | hge
      · exact .inl hlt
      · right
        -- byte `k` is in the first round
        obtain rfl : q = 0 := by
          by_contra hne
          have := Nat.le_mul_of_pos_right p.chSize (Nat.pos_of_ne_zero hne)
          omega
        omega
  · show (d.stale || d.byte?.isNone) = false
    rw [h.fresh, deinterlacer_byte h hsized ht hready hearly]
    rfl
  · show (d.early || d.tooEarly) = false
    rw [h.early, hearly]
    rfl
  · show d.chNdata < d.chPos + 1 + p.chLineSize
    omega

/-- Where nothing comes, the position stays as it is. -/
theorem deinterlacer_stop (hsized : p.Sized)
    (hsub : Delivers psub.toPullSource SaneStatus.good w slack subFit subAt)
    (hfit : ∀ e, p.chLineSize ∣ e → subFit e) {s s' : Deinterlacer × σ} {k : Nat}
    (h : p.At w whole subAt s k) (hrefill : Deinterlacer.refill psub s = some (.stop .good s')) :
    p.At w whole subAt s' k := by
  obtain ⟨t, hat, hinv, hwhole, hnear⟩ := h
  rw [Deinterlacer.refill] at hrefill
  by_cases hfetch : s.1.chPos % s.1.chLineSize = s.1.chNdata % s.1.chLineSize
  · rw [if_pos hfetch] at hrefill
    obtain ⟨hwrap, heq, -, hend⟩ :=
      deinterlacer_wrap_inv hinv hsized ((fetch_iff hinv hnear).mp hfetch)
    obtain ⟨hsame, hat'⟩ :=
      askSub_stop hsub hat (hfit _ (deinterlacer_asks hwrap hsized hend)) hrefill
    refine ⟨t, hat', hsame ▸ hwrap, fun h => hsame ▸ wrap_whole (hwhole h), ?_⟩
    have hline := hsized.line
    rw [hsame]
    omega
  · rw [if_neg hfetch] at hrefill
    cases hrefill

/-- Where data comes, a byte can be made. -/
theorem deinterlacer_go (hsized : p.Sized)
    (hsub : Delivers psub.toPullSource SaneStatus.good w slack subFit subAt)
    (hfit : ∀ e, p.chLineSize ∣ e → subFit e)
    (hlines : whole → GivesLines psub p.chLineSize subAt) {s s' : Deinterlacer × σ} {k : Nat}
    (h : p.At w whole subAt s k) (hrefill : Deinterlacer.refill psub s = some (.go s')) :
    p.Ready w whole subAt s' k := by
  obtain ⟨t, hat, hinv, hwhole, hnear⟩ := h
  rw [Deinterlacer.refill] at hrefill
  by_cases hfetch : s.1.chPos % s.1.chLineSize = s.1.chNdata % s.1.chLineSize
  · rw [if_pos hfetch] at hrefill
    obtain ⟨hwrap, heq, hroom, hend⟩ :=
      deinterlacer_wrap_inv hinv hsized ((fetch_iff hinv hnear).mp hfetch)
    obtain ⟨bytes, hget, hstored, hsome, hlen, hfront, hat'⟩ :=
      askSub_go hsub hat (hfit _ (deinterlacer_asks hwrap hsized hend)) hrefill
    obtain ⟨hgot, hready⟩ :=
      deinterlacer_gotData_inv hwrap hsized heq hroom hend.le hfront hlen hsome
    have hgiven : whole → p.chLineSize ∣ (s.1.wrap.2.gotData bytes).chNdata := by
      intro hw
      have hdvd := wrap_whole (hwhole hw)
      obtain ⟨hline, hat₀⟩ := deinterlacer_asks_line hwrap hsized heq hdvd hend
      rw [hline] at hget
      exact Nat.dvd_add hdvd (hlines hw hat hat₀ hget)
    rw [← hstored] at hgot hready hgiven
    exact ⟨_, hat', hgot, hgiven, hready⟩
  · rw [if_neg hfetch] at hrefill
    cases hrefill
    have hne : s.1.chPos ≠ s.1.chNdata := fun heq => hfetch ((fetch_iff hinv hnear).mpr heq)
    exact ⟨t, hat, hinv, hwhole, lt_of_le_of_ne hinv.pos hne⟩

/-- A byte that is not made too early is the next one of the output. -/
theorem deinterlacer_makes (hsized : p.Sized)
    (hsub : Delivers psub.toPullSource SaneStatus.good w slack subFit subAt)
    {s : Deinterlacer × σ} {k : Nat} (h : p.Ready w whole subAt s k)
    (hearly : s.1.tooEarly = false) :
    [s.1.byte?.getD 0] <+: (p.deinterlace w).drop k ∧
      p.At w whole subAt (s.1.next, s.2) (k + 1) := by
  obtain ⟨t, hat, hinv, hwhole, hready⟩ := h
  have ht := hsub.le hat
  obtain ⟨hnext, hnear⟩ := deinterlacer_next_inv hinv hsized ht hready hearly
  refine ⟨?_, t, hat, hnext, hwhole, hnear⟩
  rw [deinterlacer_byte hinv hsized ht hready hearly]
  have hcount := hinv.count
  exact deinterlace_prefix (by omega)

/-- Where no byte can be made too early, the deinterlacer makes its output of what the source
    below it gives. -/
theorem deinterlacer_transforms (hsized : p.Sized)
    (hsub : Delivers psub.toPullSource SaneStatus.good w slack subFit subAt)
    (hfit : ∀ e, p.chLineSize ∣ e → subFit e)
    (hlines : whole → GivesLines psub p.chLineSize subAt)
    (htimely : ∀ {d t k}, p.Inv w d t k → t ≤ w.length → (whole → p.chLineSize ∣ d.chNdata) →
      d.chPos < d.chNdata → d.tooEarly = false) :
    Transforms (Deinterlacer.refill psub) (fun s _ => ([s.1.byte?.getD 0], (s.1.next, s.2)))
      (p.deinterlace w) fit (p.At w whole subAt) (p.Ready w whole subAt) where
  stop h hrefill := deinterlacer_stop hsized hsub hfit h hrefill
  go h hrefill := deinterlacer_go hsized hsub hfit hlines h hrefill
  makes {s k n} h hn _ := by
    obtain ⟨t, hat, hinv, hwhole, hready⟩ := h
    have hearly := htimely hinv (hsub.le hat) hwhole hready
    exact ⟨hn, deinterlacer_makes hsized hsub ⟨t, hat, hinv, hwhole, hready⟩ hearly⟩

/-- No byte is made too early if the neighbours come in time. -/
theorem Deinterlacer.Timely.not_early (h : p.Timely w.length whole) (hsized : p.Sized)
    {d : Deinterlacer} {t k : Nat} (hinv : p.Inv w d t k) (ht : t ≤ w.length)
    (hwhole : whole → p.chLineSize ∣ d.chNdata) (hready : d.chPos < d.chNdata) :
    d.tooEarly = false := by
  by_contra hearly
  rw [Bool.not_eq_false] at hearly
  simp only [Deinterlacer.tooEarly, Bool.and_eq_true, Bool.not_eq_true', Bool.or_eq_true,
    decide_eq_true_eq] at hearly
  obtain ⟨⟨⟨hlineart, hpast⟩, hshifted⟩, hplace⟩ := hearly
  rw [hinv.like.lineart] at hlineart
  rw [hinv.pastInit] at hpast
  have hfirst : ¬ p.chLineSize * p.chOffset < k := of_decide_eq_false hpast
  obtain ⟨q, hq⟩ := hinv.begins
  have hcount := hinv.count
  have hndata := hinv.ndata
  have hsize := hsized.size
  rw [Nat.mul_succ] at hsize
  have hline := hsized.line
  -- byte `k` is in the first round
  obtain rfl : q = 0 := by
    by_contra hne
    have := Nat.le_mul_of_pos_right p.chSize (Nat.pos_of_ne_zero hne)
    omega
  have hk : k = d.chPos := by omega
  have hneighbour : { p with chPos := k }.neighbour = d.neighbour := by
    simp only [Deinterlacer.neighbour, hinv.like.lineSize, hinv.like.bytesPerPixel, hk]
  have hshift : p.shiftedAt k = true := by
    rw [← hshifted, Deinterlacer.shiftedAt, Nat.mod_eq_of_lt (by omega), hk]
    simp only [Deinterlacer.shifted, hinv.like.shiftEven, hinv.like.bytesPerPixel]
  rcases h with hnone | h
  · rw [hlineart] at hnone
    cases hnone
  · obtain ⟨hinside, hearlier | ⟨hw, hsame⟩⟩ := h k (by omega) (by omega) hshift
    · rw [hneighbour] at hinside hearlier
      omega
    · rw [hneighbour] at hinside hsame
      have hends : p.chLineSize * (k / p.chLineSize) + p.chLineSize ≤ d.chNdata := by
        obtain ⟨m, hm⟩ := hwhole hw
        have hlt : k / p.chLineSize < m := by
          rw [Nat.div_lt_iff_lt_mul hline, Nat.mul_comm, ← hm]
          omega
        rw [hm, ← Nat.mul_succ]
        exact Nat.mul_le_mul_left _ hlt
      omega

/-- What it says about what remains follows what the source below says. -/
theorem deinterlacer_remaining
    (hsub : Delivers psub.toPullSource SaneStatus.good w slack subFit subAt)
    (hsmall : w.length + slack < 2 ^ 31)
    (hlow : ∀ {s k}, subAt s k → -2 ^ 31 ≤ psub.remaining s) {s : Deinterlacer × σ} {k : Nat}
    (h : p.At w whole subAt s k) :
    ∃ t, subAt s.2 t ∧ k + s.1.chNdata = t + s.1.chPos ∧ s.1.chPos ≤ s.1.chNdata ∧
      (deinterlacerSource psub).remaining s =
        psub.remaining s.2 + (s.1.chNdata - s.1.chPos) := by
  obtain ⟨t, hat, hinv, -, -⟩ := h
  have hcount := hinv.count
  have hpos := hinv.pos
  have hbound := hsub.remaining_le hat
  refine ⟨t, hat, hcount, hpos, saneInt_of_lt ?_ ?_⟩
  · have := hlow hat
    omega
  · omega

theorem deinterlacer_remaining_pos
    (hsub : Delivers psub.toPullSource SaneStatus.good w slack subFit subAt)
    (hsmall : w.length + slack < 2 ^ 31)
    (hlow : ∀ {s k}, subAt s k → -2 ^ 31 ≤ psub.remaining s) {s : Deinterlacer × σ} {k : Nat}
    (h : p.At w whole subAt s k) (hk : k < w.length) :
    0 < (deinterlacerSource psub).remaining s := by
  obtain ⟨t, hat, hcount, hpos, heq⟩ := deinterlacer_remaining hsub hsmall hlow h
  rw [heq]
  rcases Nat.lt_or_ge t w.length with hmore | hall
  · have := hsub.remaining_pos hat hmore
    omega
  · have := hsub.remaining_nonneg hat (by omega)
    omega

/-- Where no byte is made too early, the deinterlacer gives its output for what the source
    below it gives. -/
theorem deinterlacer_delivers (hsized : p.Sized)
    (hsub : Delivers psub.toPullSource SaneStatus.good w slack subFit subAt)
    (hfit : ∀ e, p.chLineSize ∣ e → subFit e)
    (hlines : whole → GivesLines psub p.chLineSize subAt) (htimely : p.Timely w.length whole)
    (hsmall : w.length + slack < 2 ^ 31)
    (hlow : ∀ {s k}, subAt s k → -2 ^ 31 ≤ psub.remaining s) :
    Delivers (deinterlacerSource psub).toPullSource SaneStatus.good (p.deinterlace w) slack fit
      (p.At w whole subAt) := by
  have hremaining := fun {s k} => @deinterlacer_remaining _ psub w slack whole _ subAt p hsub
    hsmall hlow s k
  refine ⟨?_, ?_, ?_, ?_, ?_⟩
  · intro s k h
    obtain ⟨t, hat, hcount, hpos, -⟩ := hremaining h
    have := hsub.le hat
    rw [length_deinterlace]
    omega
  · intro s k n xs s' h hend hget
    exact transformLoop_gives
      (deinterlacer_transforms hsized hsub hfit hlines (htimely.not_early hsized)) h hend hget
  · intro s k h hk
    rw [length_deinterlace] at hk
    exact deinterlacer_remaining_pos hsub hsmall hlow h hk
  · intro s k h hk
    obtain ⟨t, hat, hcount, hpos, heq⟩ := hremaining h
    have := hsub.remaining_nonneg hat (by omega)
    rw [heq]
    omega
  · intro s k h
    obtain ⟨t, hat, hcount, hpos, heq⟩ := hremaining h
    have := hsub.remaining_le hat
    rw [length_deinterlace, heq]
    omega

/-- The rest of a line is there when a byte is missing. -/
theorem deinterlacer_refill_prompt (hsized : p.Sized) (hwhole : p.chLineSize ∣ w.length)
    (hanswers : Answers psub.toPullSource SaneStatus.good w subFit subAt prompt)
    (hfit : ∀ e, p.chLineSize ∣ e → subFit e) {s : Deinterlacer × σ} {k : Nat}
    (h : p.At w whole subAt s k) (hprompt : prompt s.2) (hk : k < w.length) :
    ∃ s', Deinterlacer.refill psub s = some (.go s') ∧ prompt s'.2 := by
  obtain ⟨t, hat, hinv, -, hnear⟩ := h
  rw [Deinterlacer.refill]
  by_cases hfetch : s.1.chPos % s.1.chLineSize = s.1.chNdata % s.1.chLineSize
  · rw [if_pos hfetch]
    obtain ⟨hwrap, heq, hroom, hend⟩ :=
      deinterlacer_wrap_inv hinv hsized ((fetch_iff hinv hnear).mp hfetch)
    have hasks := deinterlacer_asks hwrap hsized hend
    have hcount := hwrap.count
    have hdivle := Nat.mul_div_le s.1.wrap.2.chPos p.chLineSize
    have hmod := Nat.div_add_mod s.1.wrap.2.chPos p.chLineSize
    have hlt := Nat.mod_lt s.1.wrap.2.chPos hsized.line
    -- the line that is asked for is a line of the input
    have hle : t + s.1.wrap.1 ≤ w.length := by
      obtain ⟨m, hm⟩ := hasks
      obtain ⟨lines, hlines⟩ := hwhole
      have hm' : m < lines + 1 := by
        refine Nat.lt_of_mul_lt_mul_left (a := p.chLineSize) ?_
        rw [Nat.mul_succ]
        omega
      rw [hm, hlines]
      exact Nat.mul_le_mul_left _ (Nat.le_of_lt_succ hm')
    obtain ⟨sub', hask, hprompt'⟩ := askSub_full s.1.wrap.1 s.1.wrap.2.gotData s.1.wrap.2
      hanswers hat hprompt (by omega) hle (hfit _ hasks)
    exact ⟨_, hask, hprompt'⟩
  · rw [if_neg hfetch]
    exact ⟨s, rfl, hprompt⟩

/-- Above a prompt source it gives all that it is asked for. -/
theorem deinterlacer_answers (hsized : p.Sized) (hwhole : p.chLineSize ∣ w.length)
    (hsub : Delivers psub.toPullSource SaneStatus.good w slack subFit subAt)
    (hanswers : Answers psub.toPullSource SaneStatus.good w subFit subAt prompt)
    (hfit : ∀ e, p.chLineSize ∣ e → subFit e)
    (hlines : whole → GivesLines psub p.chLineSize subAt) (htimely : p.Timely w.length whole)
    (hsmall : w.length + slack < 2 ^ 31)
    (hlow : ∀ {s k}, subAt s k → -2 ^ 31 ≤ psub.remaining s) :
    Answers (deinterlacerSource psub).toPullSource SaneStatus.good (p.deinterlace w) fit
      (p.At w whole subAt) (fun s => prompt s.2) := by
  intro s k n h hprompt hn hle hend
  refine transformLoop_full
    (deinterlacer_transforms hsized hsub hfit hlines (htimely.not_early hsized))
    ⟨?_, ?_, ?_, fun h => h⟩ h hprompt le_rfl hle hend
  · intro s k h hk
    rw [length_deinterlace] at hk
    exact deinterlacer_remaining_pos hsub hsmall hlow h hk
  · intro s k h hprompt hk
    rw [length_deinterlace] at hk
    exact deinterlacer_refill_prompt hsized hwhole hanswers hfit h hprompt hk
  · intro s k n h hn
    exact List.cons_ne_nil _ _

theorem deinterlacer_init {pss : SnapScanScanner} (hline : 0 < psub.bytesPerLine) {s : σ}
    (h : subAt s 0) :
    (Deinterlacer.init pss psub).Sized ∧
      (Deinterlacer.init pss psub).At w whole subAt (Deinterlacer.init pss psub, s) 0 := by
  refine ⟨⟨hline, rfl⟩, 0, h, ⟨⟨rfl, rfl, rfl, rfl, rfl, rfl⟩, List.length_replicate, Nat.zero_le _,
    le_rfl, Nat.zero_le _, ⟨0, rfl⟩, rfl, ?_, window_zero, rfl, rfl⟩, fun _ => Nat.dvd_zero _, ?_⟩
  · exact (decide_eq_false (Nat.not_lt_zero _)).symm
  · show 0 < 0 + psub.bytesPerLine
    omega

end

end SaneBackends
