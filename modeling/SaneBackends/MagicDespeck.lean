import SaneBackends.MagicImage
import SaneBackends.CountLoops
import SaneBackends.Components
import Mathlib.Tactic.Ring

/-!
# Removing specks

`sanei_magic_despeck` of `sanei/sanei_magic.c`.  A window is moved over the image; what it shows
is erased if the ring of pixels around it is empty.  For black and white images this erases whole
components, because a component that does not lie in the window would have a pixel in the ring.
The bound of the rows is computed with `int`s, which overflow for huge diameters.
-/

namespace SaneBackends.Magic

open CountLoops FaultState Components

/-! ### The loops -/

def insideWindow (diam k l : Nat) : Bool :=
  decide (k ≠ 0 ∧ k ≠ diam + 1 ∧ l ≠ 0 ∧ l ≠ diam + 1)

/-- The loop over one line of the ring around the window.  `k` and `l` are counted from the pixel
    above and to the left of the window.  What `visit` tells ends the line. -/
def ringLine {σ : Type} (visit : Nat → σ → Except Fault (σ × Bool)) (diam k : Nat) :
    List Nat → σ → Except Fault σ
  | [], s => .ok s
  | l :: ls, s =>
    if insideWindow diam k l then ringLine visit diam k ls s
    else do
      let (s, stop) ← visit l s
      if stop then .ok s else ringLine visit diam k ls s

/-- The loop over rows and columns around the window. -/
def ring {σ : Type} (visit : Nat → Nat → σ → Except Fault (σ × Bool)) (diam : Nat) :
    σ → Except Fault σ :=
  turns (fun k => ringLine (visit k) diam k (List.range (diam + 2))) (diam + 2)

/-- The loop over rows and columns in the window. -/
def window {σ : Type} (visit : Nat → Nat → σ → Except Fault σ) (diam : Nat) :
    σ → Except Fault σ :=
  turns (fun k => turns (visit k) diam) diam

/-- `buffer[i + k*bw + (j+l)/8] >> (7-(j+l)%8) & 1` in the window. -/
def windowBit (bw i j : Nat) (buffer : List SaneByte) (k l : Nat) : Except Fault Bool :=
  readBit buffer (i + k * bw + (j + l) / 8) (7 - (j + l) % 8)

def ringBit (bw i j : Nat) (buffer : List SaneByte) (k l : Nat) : Except Fault Bool :=
  readBit buffer (i + k * bw - bw + (j + l - 1) / 8) (7 - (j + l - 1) % 8)

/-- The body of the loops for black and white images.  `curr` is only asked whether it is zero; it
    is counted without bound, though the `int` of the source overflows in a window with 2^31 black
    pixels. -/
def despeckBits (bw diam i j : Nat) (buffer : List SaneByte) : Except Fault (List SaneByte) := do
  let curr ← window (fun k l curr => do
    .ok (curr + (← windowBit bw i j buffer k l).toNat)) diam 0
  if curr = 0 then .ok buffer
  else do
    let hits ← ring (fun k l hits => do
      let hits := hits + (← ringBit bw i j buffer k l).toNat
      .ok (hits, hits ≠ 0)) diam 0
    if hits = 0 then
      window (fun k l buffer =>
        putBit buffer (i + k * bw + (j + l) / 8) (7 - (j + l) % 8) false) diam buffer
    else .ok buffer

def loadPixel (samples i : Nat) (buffer : List SaneByte) : Except Fault (List Nat) :=
  (List.range samples).mapM fun n => do .ok (← cellAt buffer (i + n)).toNat

/-- The body of the loops for colour and gray images.  The pixel that is a hit is never used for
    the replacement colour, so that it does not matter whether it has been added to `outer`. -/
def despeckPixels (bw samples diam i j : Nat) (buffer : List SaneByte) :
    Except Fault (List SaneByte) := do
  let pos := fun k l => i + j * samples + k * bw + l * samples
  let thresh ← window (fun k l thresh => do
    let tmp := (← loadPixel samples (pos k l) buffer).sum
    .ok (if tmp < thresh then tmp else thresh)) diam (255 * samples)
  let thresh := (thresh + 255 * samples + 255 * samples) / 3
  let (outer, hits) ← ring (fun k l (outer, hits) => do
    let tmp ← loadPixel samples (pos k l - bw - samples) buffer
    let outer := List.zipWith (· + ·) outer tmp
    if tmp.sum < thresh then .ok ((outer, hits + 1), true) else .ok ((outer, hits), false))
    diam (List.replicate samples 0, 0)
  if hits = 0 then
    let outer := outer.map fun n => BitVec.ofNat 8 (n / (4 * diam + 4))
    window (fun k l buffer => storeCells buffer (pos k l) outer) diam buffer
  else .ok buffer

/-- `sanei_magic_despeck`.  The columns are counted from 1. -/
def saneiMagicDespeck (p : Params) (buffer : List SaneByte) (diam : Nat) :
    Except Fault (SaneStatus × List SaneByte) := do
  let pw := p.pixelsPerLine
  let bw := p.bytesPerLine
  let bt ← intValue (bw * p.lines)
  let rows := fun body => do
    let bound ← intValue (bt - bw - (← intValue (bw * diam)))
    stepLoop (fun i => turns (fun n => body i (n + 1)) (pw - 1 - diam - 1)) .outOfBounds bw bound
      (p.lines + 1) bw buffer
  if p.Sampled then do
    let buffer ← rows (despeckPixels bw p.samples diam)
    .ok (.good, buffer)
  else if p.Lineart then do
    let buffer ← rows (despeckBits bw diam)
    .ok (.good, buffer)
  else .ok (.inval, buffer)

/-! ### What should be erased -/

/-- Points are neighbours if they touch, also at a corner. -/
def Touches (p q : Nat × Nat) : Prop :=
  p.1 ≤ q.1 + 1 ∧ q.1 ≤ p.1 + 1 ∧ p.2 ≤ q.2 + 1 ∧ q.2 ≤ p.2 + 1

/-- The points of a square. -/
def box (x y diam : Nat) : Set (Nat × Nat) :=
  {q | x ≤ q.1 ∧ q.1 < x + diam ∧ y ≤ q.2 ∧ q.2 < y + diam}

/-- The points fit into a square. -/
def FitsInBox (diam : Nat) (A : Set (Nat × Nat)) : Prop := ∃ x y, A ⊆ box x y diam

/-- The black pixels, at column and line. -/
def blackPoints (p : Params) (buffer : List SaneByte) : Set (Nat × Nat) :=
  {q | q.1 < p.pixelsPerLine ∧ q.2 < p.lines ∧ pixelBit p.bytesPerLine buffer q.1 q.2 = true}

/-- Neither the first and last line nor the first and last column. -/
def IsInner (p : Params) (x y : Nat) : Prop :=
  1 ≤ x ∧ x + 2 ≤ p.pixelsPerLine ∧ 1 ≤ y ∧ y + 2 ≤ p.lines

/-- No white pixel becomes black, components are kept or erased as a whole, those that are erased
    fit into a square of the diameter, and the border stays. -/
def Despeckles (img : Image) (diam : Nat) : Prop :=
  ∃ out, saneiMagicDespeck img.params img.buffer diam = .ok (.good, out) ∧
    out.length = img.buffer.length ∧
    blackPoints img.params out ⊆ blackPoints img.params img.buffer ∧
    (∀ p ∈ blackPoints img.params img.buffer,
      component Touches (blackPoints img.params img.buffer) p ⊆ blackPoints img.params out ∨
      (∀ q ∈ component Touches (blackPoints img.params img.buffer) p,
        q ∉ blackPoints img.params out) ∧
      FitsInBox diam (component Touches (blackPoints img.params img.buffer) p)) ∧
    ∀ x < img.params.pixelsPerLine, ∀ y < img.params.lines, ¬ IsInner img.params x y →
      pixelBit img.params.bytesPerLine out x y
        = pixelBit img.params.bytesPerLine img.buffer x y

/-- The bound of the rows can be computed. -/
def RowBoundFits (p : Params) (diam : Nat) : Prop :=
  p.bytesPerLine * p.lines < 2 ^ 31 ∧ p.bytesPerLine * diam < 2 ^ 31 ∧
    p.bytesPerLine + p.bytesPerLine * diam ≤ 2 ^ 31 + p.bytesPerLine * p.lines

/-! ### One window -/

theorem touches_symm (p q : Nat × Nat) (h : Touches p q) : Touches q p :=
  ⟨h.2.1, h.1, h.2.2.2, h.2.2.1⟩

theorem fitsInBox_mono {diam : Nat} (A B : Set (Nat × Nat)) (h : A ⊆ B) (hB : FitsInBox diam B) :
    FitsInBox diam A := by
  obtain ⟨x, y, hbox⟩ := hB
  exact ⟨x, y, fun q hq => hbox (h hq)⟩

/-- A line of the ring without a hit is white. -/
theorem ringLine_ok {read : Nat → Except Fault Bool} {v : Nat → Bool} {diam k : Nat}
    {ls : List Nat} (hread : ∀ l ∈ ls, read l = .ok (v l)) (hits : Nat) :
    ∃ hits', ringLine (fun l hits => do
        let hits := hits + (← read l).toNat
        .ok (hits, hits ≠ 0)) diam k ls hits = .ok hits' ∧
      (hits' = 0 → hits = 0 ∧ ∀ l ∈ ls, insideWindow diam k l = false → v l = false) := by
  induction ls generalizing hits with
  | nil => exact ⟨hits, rfl, fun h => ⟨h, fun l hl => nomatch hl⟩⟩
  | cons l ls ih =>
    have htail : ∀ l' ∈ ls, read l' = .ok (v l') :=
      fun l' hl' => hread l' (List.mem_cons_of_mem l hl')
    rw [ringLine]
    cases hin : insideWindow diam k l with
    | true =>
      rw [if_pos rfl]
      obtain ⟨hits', hrun, hzero⟩ := ih htail hits
      refine ⟨hits', hrun, fun h => ⟨(hzero h).1, ?_⟩⟩
      intro l' hl' hout
      rcases List.mem_cons.mp hl' with rfl | hl'
      · rw [hin] at hout
        exact nomatch hout
      · exact (hzero h).2 l' hl' hout
    | false =>
      rw [if_neg Bool.false_ne_true, hread l List.mem_cons_self]
      show ∃ hits', (if (decide (hits + (v l).toNat ≠ 0)) = true then _ else _) = _ ∧ _
      by_cases hhit : hits + (v l).toNat = 0
      · have hnot : decide (hits + (v l).toNat ≠ 0) = false := decide_eq_false (not_not.mpr hhit)
        rw [hnot, if_neg Bool.false_ne_true]
        obtain ⟨hits', hrun, hzero⟩ := ih htail (hits + (v l).toNat)
        refine ⟨hits', hrun, fun h => ⟨by omega, ?_⟩⟩
        intro l' hl' hout
        rcases List.mem_cons.mp hl' with rfl | hl'
        · cases hv : v l' with
          | false => rfl
          | true =>
            rw [hv] at hhit
            exact absurd hhit (by simp)
        · exact (hzero h).2 l' hl' hout
      · rw [if_pos (decide_eq_true hhit)]
        exact ⟨_, rfl, fun h => absurd h hhit⟩

/-- A ring without a hit is white. -/
theorem ring_ok {read : Nat → Nat → Except Fault Bool} {v : Nat → Nat → Bool} (diam : Nat)
    (hread : ∀ k < diam + 2, ∀ l < diam + 2, read k l = .ok (v k l)) :
    ∃ hits, ring (fun k l hits => do
        let hits := hits + (← read k l).toNat
        .ok (hits, hits ≠ 0)) diam 0 = .ok hits ∧
      (hits = 0 → ∀ k < diam + 2, ∀ l < diam + 2, insideWindow diam k l = false →
        v k l = false) := by
  apply turns_ok (I := fun n hits => hits = 0 → ∀ k < n, ∀ l < diam + 2,
    insideWindow diam k l = false → v k l = false)
  · exact fun _ k hk => absurd hk (Nat.not_lt_zero k)
  · intro k hk hits hbefore
    obtain ⟨hits', hrun, hzero⟩ := @ringLine_ok (read k) (v k) diam k (List.range (diam + 2))
      (fun l hl => hread k hk l (List.mem_range.mp hl)) hits
    refine ⟨hits', hrun, ?_⟩
    intro h k' hk' l hl hout
    rcases Nat.lt_succ_iff_lt_or_eq.mp hk' with hlt | rfl
    · exact hbefore (hzero h).1 k' hlt l hl hout
    · exact (hzero h).2 l (List.mem_range.mpr hl) hout

theorem windowCount_ok {read : Nat → Nat → Except Fault Bool} {v : Nat → Nat → Bool}
    (diam : Nat) (hread : ∀ k < diam, ∀ l < diam, read k l = .ok (v k l)) :
    ∃ curr, window (fun k l curr => do .ok (curr + (← read k l).toNat)) diam 0 = .ok curr := by
  have hline : ∀ k < diam, ∀ s, True → ∃ s', turns (fun l curr => do
      .ok (curr + (← read k l).toNat)) diam s = .ok s' ∧ True := by
    intro k hk s _
    apply turns_ok (I := fun _ _ => True) trivial
    intro l hl s _
    rw [hread k hk l hl]
    exact ⟨_, rfl, trivial⟩
  obtain ⟨curr, hrun, _⟩ := turns_ok (I := fun _ _ => True) (s := 0) trivial hline
  exact ⟨curr, hrun⟩

section Window

variable {bw h r j : Nat} {buffer : List SaneByte}

/-- The pixels of the window are erased and no others. -/
theorem eraseWindow_ok (diam : Nat) (hlen : buffer.length = bw * h) (hrows : r + diam ≤ h)
    (hcolumns : ∀ l < diam, (j + l) / 8 < bw) :
    ∃ out, window (fun k l buffer =>
        putBit buffer (r * bw + k * bw + (j + l) / 8) (7 - (j + l) % 8) false) diam buffer
        = .ok out ∧ out.length = buffer.length ∧
      ∀ x y, x / 8 < bw → ((x, y) ∈ box j r diam → pixelBit bw out x y = false) ∧
        ((x, y) ∉ box j r diam → pixelBit bw out x y = pixelBit bw buffer x y) := by
  -- the points that are worked off are the rows and columns of the window
  let inv : List SaneByte → Prop := fun mem => mem.length = buffer.length ∧
    ∀ x y, x / 8 < bw → (x, y) ∉ box j r diam → pixelBit bw mem x y = pixelBit bw buffer x y
  let good : Nat × Nat → List SaneByte → Prop := fun q mem =>
    q.1 < diam → q.2 < diam → pixelBit bw mem (j + q.2) (r + q.1) = false
  have hall : Completes inv good (window (fun k l buffer =>
      putBit buffer (r * bw + k * bw + (j + l) / 8) (7 - (j + l) % 8) false) diam)
      {q | ∃ k < diam, ∃ l < diam, q ∈ ({(k, l)} : Set _)} := by
    apply Completes.turns
    intro k hk
    apply Completes.turns
    intro l hl
    apply Completes.point
    rintro mem ⟨hmem, hothers⟩
    have hcolumn := hcolumns l hl
    have haddr : r * bw + k * bw + (j + l) / 8 = (r + k) * bw + (j + l) / 8 := by
      rw [Nat.add_mul]
    have hstore : (r + k) * bw + (j + l) / 8 < mem.length := by
      rw [hmem, hlen]
      exact rowAddress_lt (by omega) hcolumn
    obtain ⟨out, hput, hout, hbits⟩ := putBit_of_lt (n := 7 - (j + l) % 8) (v := false) hstore
      (by omega)
    have hpixel : ∀ x y, x / 8 < bw → (x, y) ≠ (j + l, r + k) →
        pixelBit bw out x y = pixelBit bw mem x y := by
      intro x y hx hne
      rw [pixelBit, hbits, if_neg]
      · rfl
      · intro hsame
        obtain ⟨rfl, rfl⟩ := pixelBit_inj hx hcolumn hsame
        exact hne rfl
    rw [← haddr] at hput
    refine ⟨out, hput, ⟨hout.trans hmem, ?_⟩, ?_, ?_⟩
    · intro x y hx hnot
      rw [hpixel x y hx]
      · exact hothers x y hx hnot
      · rintro ⟨⟩
        apply hnot
        exact ⟨by omega, by omega, by omega, by omega⟩
    · intro _ _
      rw [pixelBit, hbits, if_pos ⟨rfl, rfl⟩]
    · rintro ⟨k', l'⟩ hne hgood hk' hl'
      show pixelBit bw out (j + l') (r + k') = false
      rw [hpixel _ _ (hcolumns l' hl')]
      · exact hgood hk' hl'
      · intro hsame
        obtain ⟨hl'', hk''⟩ := Prod.mk.inj hsame
        apply hne
        rw [Nat.add_left_cancel hk'', Nat.add_left_cancel hl'']
  obtain ⟨out, hrun, ⟨hout, hothers⟩, hgood⟩ := hall.run ⟨rfl, fun _ _ _ _ => rfl⟩
  refine ⟨out, hrun, hout, ?_⟩
  intro x y hx
  refine ⟨?_, hothers x y hx⟩
  rintro ⟨hxl, hxr, hyl, hyr⟩
  have hxd : x - j < diam := by
    have : x < j + diam := hxr
    omega
  have hyd : y - r < diam := by
    have : y < r + diam := hyr
    omega
  have hpoint := hgood (y - r, x - j) ⟨y - r, hyd, x - j, hxd, rfl⟩ hyd hxd
  have hxj : j + (x - j) = x := Nat.add_sub_cancel' hxl
  have hyr' : r + (y - r) = y := Nat.add_sub_cancel' hyl
  change pixelBit bw out (j + (x - j)) (r + (y - r)) = false at hpoint
  rwa [hxj, hyr'] at hpoint

end Window

/-- What holds of the buffer after every window. -/
structure Despeckled (img : Image) (diam : Nat) (buffer : List SaneByte) : Prop where
  length_eq : buffer.length = img.buffer.length
  erases : ErasesWhole Touches (FitsInBox diam) (blackPoints img.params img.buffer)
    (blackPoints img.params buffer)
  border : ∀ x < img.params.pixelsPerLine, ∀ y < img.params.lines, ¬ IsInner img.params x y →
    pixelBit img.params.bytesPerLine buffer x y
      = pixelBit img.params.bytesPerLine img.buffer x y

/-- The pixels around the window are those of the ring. -/
theorem ring_of_touches {diam r j : Nat} {p q : Nat × Nat} (hp : p ∈ box j r diam)
    (hq : q ∉ box j r diam) (h : Touches p q) :
    q.2 + 1 - r < diam + 2 ∧ q.1 + 1 - j < diam + 2 ∧
      insideWindow diam (q.2 + 1 - r) (q.1 + 1 - j) = false ∧ j ≤ q.1 + 1 ∧ r ≤ q.2 + 1 := by
  obtain ⟨p₁, p₂⟩ := p
  obtain ⟨q₁, q₂⟩ := q
  obtain ⟨h₁, h₂, h₃, h₄⟩ := h
  obtain ⟨hp₁, hp₂, hp₃, hp₄⟩ := hp
  have hout : ¬ (j ≤ q₁ ∧ q₁ < j + diam ∧ r ≤ q₂ ∧ q₂ < r + diam) := hq
  simp only at h₁ h₂ h₃ h₄ hp₁ hp₂ hp₃ hp₄
  refine ⟨?_, ?_, ?_, ?_, ?_⟩
  · show q₂ + 1 - r < diam + 2
    omega
  · show q₁ + 1 - j < diam + 2
    omega
  · rw [insideWindow, decide_eq_false_iff_not]
    show ¬ (q₂ + 1 - r ≠ 0 ∧ q₂ + 1 - r ≠ diam + 1 ∧ q₁ + 1 - j ≠ 0 ∧ q₁ + 1 - j ≠ diam + 1)
    omega
  · show j ≤ q₁ + 1
    omega
  · show r ≤ q₂ + 1
    omega

section Step

variable {img : Image} {diam r j : Nat} {buffer : List SaneByte}

theorem windowBit_ok (hl : img.params.Lineart) (hlen : buffer.length = img.buffer.length)
    {k l : Nat} (hx : j + l < img.params.pixelsPerLine) (hy : r + k < img.params.lines) :
    windowBit img.params.bytesPerLine (r * img.params.bytesPerLine) j buffer k l
      = .ok (pixelBit img.params.bytesPerLine buffer (j + l) (r + k)) := by
  have hlt := img.bitAddress_lt hl hx hy
  rw [← hlen] at hlt
  rw [windowBit, ← Nat.add_mul]
  exact readBit_of_lt hlt _

theorem ringBit_ok (hl : img.params.Lineart) (hlen : buffer.length = img.buffer.length)
    {k l : Nat} (hx : j + l - 1 < img.params.pixelsPerLine)
    (hy : r + k - 1 < img.params.lines) :
    ringBit img.params.bytesPerLine (r * img.params.bytesPerLine) j buffer k l
      = .ok (pixelBit img.params.bytesPerLine buffer (j + l - 1) (r + k - 1)) := by
  have hlt := img.bitAddress_lt hl hx hy
  rw [← hlen] at hlt
  have haddr : r * img.params.bytesPerLine + k * img.params.bytesPerLine - img.params.bytesPerLine
      = (r + k - 1) * img.params.bytesPerLine := by
    rw [← Nat.add_mul, Nat.sub_one_mul]
  rw [ringBit, haddr]
  exact readBit_of_lt hlt _

/-- Erasing the window takes its points away. -/
theorem blackPoints_erased {p : Params} {out : List SaneByte}
    (hrow : (p.pixelsPerLine + 7) / 8 ≤ p.bytesPerLine)
    (hbits : ∀ x y, x / 8 < p.bytesPerLine →
      ((x, y) ∈ box j r diam → pixelBit p.bytesPerLine out x y = false) ∧
      ((x, y) ∉ box j r diam →
        pixelBit p.bytesPerLine out x y = pixelBit p.bytesPerLine buffer x y)) :
    blackPoints p out = blackPoints p buffer \ box j r diam := by
  ext ⟨x, y⟩
  constructor
  · rintro ⟨hx, hy, hblack⟩
    obtain ⟨hin, hout⟩ := hbits x y (bitColumn_lt hrow hx)
    have hnot : (x, y) ∉ box j r diam := by
      intro hmem
      exact absurd ((hin hmem).symm.trans hblack) Bool.false_ne_true
    exact ⟨⟨hx, hy, (hout hnot).symm.trans hblack⟩, hnot⟩
  · rintro ⟨⟨hx, hy, hblack⟩, hnot⟩
    exact ⟨hx, hy, ((hbits x y (bitColumn_lt hrow hx)).2 hnot).trans hblack⟩

/-- What one window does. -/
theorem despeckBits_ok (hl : img.params.Lineart) (h : Despeckled img diam buffer) (hr : 1 ≤ r)
    (hrows : r + diam + 2 ≤ img.params.lines) (hj : 1 ≤ j)
    (hcolumns : j + diam + 2 ≤ img.params.pixelsPerLine) :
    ∃ out, despeckBits img.params.bytesPerLine diam (r * img.params.bytesPerLine) j buffer
        = .ok out ∧ Despeckled img diam out := by
  have hrow := img.row_le
  rw [hl.rowSize_eq] at hrow
  obtain ⟨curr, hcurr⟩ := windowCount_ok diam fun k hk l hl' =>
    windowBit_ok hl h.length_eq (k := k) (l := l) (r := r) (j := j) (by omega) (by omega)
  obtain ⟨hits, hring, hwhite⟩ := ring_ok diam fun k hk l hl' =>
    ringBit_ok hl h.length_eq (k := k) (l := l) (r := r) (j := j) (by omega) (by omega)
  rw [despeckBits, hcurr]
  show ∃ out, (if curr = 0 then _ else _) = _ ∧ _
  by_cases hempty : curr = 0
  · rw [if_pos hempty]
    exact ⟨buffer, rfl, h⟩
  · rw [if_neg hempty, hring]
    show ∃ out, (if hits = 0 then _ else _) = _ ∧ _
    by_cases hhit : hits = 0
    · rw [if_pos hhit]
      obtain ⟨out, hrun, hout, hbits⟩ := eraseWindow_ok diam (r := r) (j := j)
        (h.length_eq.trans img.length_buffer) (by omega)
        (fun l hl' => bitColumn_lt hrow (show j + l < img.params.pixelsPerLine by omega))
      refine ⟨out, hrun, hout.trans h.length_eq, ?_, ?_⟩
      · rw [blackPoints_erased hrow hbits]
        refine h.erases.erase touches_symm fitsInBox_mono ⟨j, r, fun q hq => hq⟩ ?_
        rintro p hp ⟨x, y⟩ hq htouch ⟨_, _, hblack⟩
        obtain ⟨hk, hl', hside, hx, hy⟩ := ring_of_touches hp hq htouch
        have hpixel := hwhite hhit _ hk _ hl' hside
        have hxj : j + (x + 1 - j) - 1 = x := by
          have : j ≤ x + 1 := hx
          omega
        have hyr : r + (y + 1 - r) - 1 = y := by
          have : r ≤ y + 1 := hy
          omega
        change pixelBit img.params.bytesPerLine buffer (j + (x + 1 - j) - 1)
          (r + (y + 1 - r) - 1) = false at hpixel
        rw [hxj, hyr] at hpixel
        exact absurd (hpixel.symm.trans hblack) Bool.false_ne_true
      · intro x hx y hy hinner
        rw [(hbits x y (bitColumn_lt hrow hx)).2, h.border x hx y hy hinner]
        rintro ⟨hxl, hxr, hyl, hyr⟩
        simp only at hxl hxr hyl hyr
        exact hinner ⟨by omega, by omega, by omega, by omega⟩
    · rw [if_neg hhit]
      exact ⟨buffer, rfl, h⟩

end Step

/-! ### All windows -/

/-- How many lines the window is moved down. -/
theorem rowBound_turns {bw h diam m : Nat} (hbw : 0 < bw) (hm : m = h - 1 - diam - 1) :
    (∀ n < m, ((bw + n * bw : Nat) : Int) < (bw * h : Nat) - bw - (bw * diam : Nat)) ∧
      ((bw * h : Nat) : Int) - bw - (bw * diam : Nat) ≤ ((bw + m * bw : Nat) : Int) := by
  rcases Nat.lt_or_ge h (diam + 2) with hlow | hhigh
  · obtain rfl : m = 0 := by omega
    have hle : bw * h ≤ bw * (diam + 2) := Nat.mul_le_mul_left bw hlow.le
    rw [Nat.mul_add] at hle
    refine ⟨fun n hn => absurd hn (Nat.not_lt_zero n), ?_⟩
    rw [Nat.zero_mul]
    omega
  · obtain rfl : h = m + diam + 2 := by omega
    have hprod : bw * (m + diam + 2) = m * bw + bw * diam + bw * 2 := by ring
    refine ⟨?_, ?_⟩
    · intro n hn
      have hnext : (n + 1) * bw ≤ m * bw := Nat.mul_le_mul_right bw hn
      rw [Nat.succ_mul] at hnext
      omega
    · omega

/-- The loops over all windows. -/
theorem despeckRows_ok {img : Image} (hl : img.params.Lineart) (diam : Nat) :
    ∃ out, stepLoop (fun i => turns (fun n => despeckBits img.params.bytesPerLine diam i (n + 1))
          (img.params.pixelsPerLine - 1 - diam - 1)) Fault.outOfBounds img.params.bytesPerLine
        ((img.params.bytesPerLine * img.params.lines : Nat) - img.params.bytesPerLine
          - (img.params.bytesPerLine * diam : Nat)) (img.params.lines + 1)
        img.params.bytesPerLine img.buffer = .ok out ∧ Despeckled img diam out := by
  have hstart : Despeckled img diam img.buffer := ⟨rfl, ErasesWhole.refl, fun _ _ _ _ _ => rfl⟩
  rcases Nat.eq_zero_or_pos img.params.bytesPerLine with hzero | hpos
  · have hbound : ((img.params.bytesPerLine * img.params.lines : Nat) : Int)
        - img.params.bytesPerLine - (img.params.bytesPerLine * diam : Nat)
        ≤ (img.params.bytesPerLine + 0 * img.params.bytesPerLine : Nat) := by
      rw [hzero, Nat.zero_mul, Nat.zero_mul]
      omega
    rw [stepLoop_eq (fun n hn => absurd hn (Nat.not_lt_zero n)) hbound (Nat.succ_pos _)]
    exact ⟨img.buffer, rfl, hstart⟩
  · obtain ⟨hin, hend⟩ := rowBound_turns (h := img.params.lines) hpos (Eq.refl (_ - 1 - diam - 1))
    rw [stepLoop_eq hin hend (by omega)]
    apply turns_ok (I := fun _ => Despeckled img diam) hstart
    intro n hn buffer hbuffer
    apply turns_ok (I := fun _ => Despeckled img diam) hbuffer
    intro j hj buffer hbuffer
    have haddr : img.params.bytesPerLine + n * img.params.bytesPerLine
        = (n + 1) * img.params.bytesPerLine := by rw [Nat.succ_mul, Nat.add_comm]
    rw [haddr]
    exact despeckBits_ok hl hbuffer (by omega) (by omega) (by omega) (by omega)

/-- A run computes the bound. -/
theorem rowBoundFits_of_run {p : Params} {buffer : List SaneByte} {diam : Nat}
    {r : SaneStatus × List SaneByte} (hl : p.Lineart)
    (hrun : saneiMagicDespeck p buffer diam = .ok r) : RowBoundFits p diam := by
  obtain ⟨bt, hbt, hrest⟩ := bind_eq_ok.mp hrun
  obtain ⟨⟨_, hsize⟩, rfl⟩ := (intValue_eq_ok).mp hbt
  simp only [if_neg hl.not_sampled, if_pos hl] at hrest
  obtain ⟨_, hrows, _⟩ := bind_eq_ok.mp hrest
  obtain ⟨window, hwindow, hrows⟩ := bind_eq_ok.mp hrows
  obtain ⟨⟨_, hheight⟩, rfl⟩ := (intValue_eq_ok).mp hwindow
  obtain ⟨bound, hbound, _⟩ := bind_eq_ok.mp hrows
  obtain ⟨⟨hlow, _⟩, rfl⟩ := (intValue_eq_ok).mp hbound
  rw [← Nat.cast_mul] at hsize hheight hlow
  rw [← Nat.cast_mul] at hlow
  exact ⟨by omega, by omega, by omega⟩

/-- Black and white images lose small components only, if the bound of the rows can be
    computed. -/
theorem despeckles_iff (img : Image) (hl : img.params.Lineart) (diam : Nat) :
    Despeckles img diam ↔ RowBoundFits img.params diam := by
  constructor
  · rintro ⟨out, hrun, _⟩
    exact rowBoundFits_of_run hl hrun
  · rintro ⟨hsize, hheight, hbound⟩
    obtain ⟨out, hrows, hout⟩ := despeckRows_ok hl diam
    refine ⟨out, ?_, hout.length_eq, hout.erases.subset, ?_, hout.border⟩
    · have hbt : intValue ((img.params.bytesPerLine : Int) * img.params.lines)
          = .ok ((img.params.bytesPerLine * img.params.lines : Nat) : Int) :=
        intValue_eq_ok.mpr ⟨by rw [← Nat.cast_mul]; omega, (Nat.cast_mul _ _).symm⟩
      have hwindow : intValue ((img.params.bytesPerLine : Int) * diam)
          = .ok ((img.params.bytesPerLine * diam : Nat) : Int) :=
        intValue_eq_ok.mpr ⟨by rw [← Nat.cast_mul]; omega, (Nat.cast_mul _ _).symm⟩
      have hrowBound : intValue (((img.params.bytesPerLine * img.params.lines : Nat) : Int)
          - img.params.bytesPerLine - (img.params.bytesPerLine * diam : Nat)) = .ok _ :=
        intValue_eq_ok.mpr ⟨by omega, rfl⟩
      rw [saneiMagicDespeck, hbt]
      simp only [if_neg hl.not_sampled, if_pos hl, hwindow]
      show ((intValue _ >>= _) >>= _) = _
      rw [hrowBound]
      show (stepLoop _ _ _ _ _ _ _ >>= _) = _
      rw [hrows]
      rfl
    · intro p hp
      by_cases hkept : p ∈ blackPoints img.params out
      · exact Or.inl fun q hq => (hout.erases.component_kept hp hq).mp hkept
      · refine Or.inr ⟨?_, hout.erases.erased_small p hp hkept⟩
        exact fun q hq hqout => hkept ((hout.erases.component_kept hp hq).mpr hqout)

/-- A black pixel in the middle of a white image. -/
def speck : Image where
  params := { format := .gray, depth := 1, pixelsPerLine := 8, bytesPerLine := 1, lines := 5 }
  buffer := [0, 0, 0x10, 0, 0]
  supported := Or.inr ⟨rfl, rfl⟩
  row_le := by decide
  length_buffer := rfl

theorem despeckles_iff_speck : Despeckles speck 1 ∧ RowBoundFits speck.params 1 := by
  have hfits : RowBoundFits speck.params 1 := by
    unfold RowBoundFits
    decide
  exact ⟨(despeckles_iff speck ⟨rfl, rfl⟩ 1).mpr hfits, hfits⟩

/-- Three lines of 524288 pixels. -/
def wideImage : Image where
  params :=
    { format := .gray, depth := 1, pixelsPerLine := 524288, bytesPerLine := 65536, lines := 3 }
  buffer := List.replicate 196608 0
  supported := Or.inr ⟨rfl, rfl⟩
  row_le := by decide
  length_buffer := List.length_replicate

/-- The height of the window in bytes overflows. -/
theorem despeck_overflows : ¬ Despeckles wideImage 65536 := by
  rintro ⟨out, hrun, _⟩
  obtain ⟨_, hheight, _⟩ := rowBoundFits_of_run ⟨rfl, rfl⟩ hrun
  exact absurd hheight (by decide)

end SaneBackends.Magic
