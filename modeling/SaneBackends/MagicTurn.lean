import SaneBackends.MagicImage
import SaneBackends.CountLoops
import Mathlib.Tactic.Ring

/-!
# Turning an image

`sanei_magic_turn` of `sanei/sanei_magic.c`.  Colour and gray images are turned as they
should.  For black and white ones the bit of a pixel is taken from the place of the pixel in
the output when the columns are reversed, which is right only for widths that are multiples
of eight: the image is turned by 180 degrees if its width is such a multiple, and by 270
degrees if moreover, or instead, its bytes look the same at the bits that are read.  Sizes and
indices are computed with `int`s, which overflow for images of two gigabytes.
-/

namespace SaneBackends.Magic

open CountLoops Overwrite FaultState

/-! ### The function -/

/-- `angle`, cleaned and converted to 0-3. -/
def quarterTurns (angle : Int) : Int := (angle.tmod 360).tdiv 90

/-- The parameters of the output, or the status with which nothing is done. -/
def turnedParams (p : Params) (turn : Int) : Except SaneStatus Params :=
  if turn = 1 ∨ turn = 3 then
    if p.Sampled then
      .ok { p with pixelsPerLine := p.lines, bytesPerLine := p.lines * p.samples,
                   lines := p.pixelsPerLine }
    else if p.Lineart then
      .ok { p with pixelsPerLine := p.lines / 8 * 8, bytesPerLine := p.lines / 8,
                   lines := p.pixelsPerLine }
    else .error .inval
  else if turn = 2 then .ok p
  else .error .good

/-- The index from which sample `k` of column `j` of output line `i` is taken. -/
def sampleSource (p : Params) (turn : Int) (i j k : Nat) : Nat :=
  if turn = 1 then (p.lines - j - 1) * p.bytesPerLine + i * p.samples + k
  else if turn = 2 then
    (p.lines - i - 1) * p.bytesPerLine + (p.pixelsPerLine - j - 1) * p.samples + k
  else j * p.bytesPerLine + (p.pixelsPerLine - i - 1) * p.samples + k

/-- The index and the shift with which column `j` of output line `i` is taken. -/
def bitSource (p : Params) (turn : Int) (i j : Nat) : Nat × Nat :=
  if turn = 1 then ((p.lines - j - 1) * p.bytesPerLine + i / 8, 7 - i % 8)
  else if turn = 2 then
    ((p.lines - i - 1) * p.bytesPerLine + (p.pixelsPerLine - j - 1) / 8, j % 8)
  else (j * p.bytesPerLine + (p.pixelsPerLine - i - 1) / 8, i % 8)

/-- The loops that turn a colour or gray image. -/
def turnSamples (o : Params) (source : Nat → Nat → Nat → Nat) (buffer : List SaneByte) :
    List SaneByte → Except Fault (List SaneByte) :=
  turns (fun i => turns (fun j => turns (fun k outbuf => do
    let byte ← cellAt buffer (← intIndex (source i j k))
    setCell outbuf (← intIndex (i * o.bytesPerLine + j * o.samples + k)) byte)
    o.samples) o.pixelsPerLine) o.lines

/-- The loops that turn a black and white image. -/
def turnBits (o : Params) (source : Nat → Nat → Nat × Nat) (buffer : List SaneByte) :
    List SaneByte → Except Fault (List SaneByte) :=
  turns (fun i => turns (fun j outbuf => do
    let curr ← readBit buffer (← intIndex (source i j).1) (source i j).2
    putBit outbuf (← intIndex (i * o.bytesPerLine + j / 8)) (7 - j % 8) curr)
    o.pixelsPerLine) o.lines

/-- `sanei_magic_turn`.  `fresh` is what the memory that `malloc` returns happens to hold.  The
    products `opwidth*depth` and `obwidth*oheight` and the indices are `int`s; all their terms are
    natural numbers, so that none overflows unless the sum does. -/
def saneiMagicTurn (fresh : Nat → SaneByte) (p : Params) (buffer : List SaneByte) (angle : Int) :
    Except Fault (SaneStatus × Params × List SaneByte) :=
  let turn := quarterTurns angle
  match turnedParams p turn with
  | .error status => .ok (status, p, buffer)
  | .ok o => do
    let obwidth ← intIndex o.bytesPerLine
    let outbuf := (List.range (← intIndex (obwidth * o.lines))).map fresh
    if p.Sampled then do
      let outbuf ← turnSamples o (sampleSource p turn) buffer outbuf
      let buffer ← storeCells buffer 0 outbuf
      .ok (.good, o, buffer)
    else if p.Lineart then do
      let outbuf ← turnBits o (bitSource p turn) buffer outbuf
      let buffer ← storeCells buffer 0 outbuf
      .ok (.good, o, buffer)
    else .ok (.inval, p, buffer)

/-! ### What turning means -/

/-- The angles that are asked for. -/
def IsQuarter (angle : Int) : Prop := angle = 90 ∨ angle = 180 ∨ angle = 270

/-- The point of the input that is shown at column `x` of line `y` when the image has been
    turned clockwise. -/
def turnedPoint (p : Params) (angle : Int) (x y : Nat) : Nat × Nat :=
  if angle = 90 then (y, p.lines - 1 - x)
  else if angle = 180 then (p.pixelsPerLine - 1 - x, p.lines - 1 - y)
  else (p.pixelsPerLine - 1 - y, x)

/-- The width and the height of the output.  The lines of a black and white image that has been
    turned on its side consist of whole bytes. -/
def turnedSize (p : Params) (angle : Int) : Nat × Nat :=
  if angle = 180 then (p.pixelsPerLine, p.lines)
  else (if p.Lineart then 8 * (p.lines / 8) else p.lines, p.pixelsPerLine)

/-- The bytes of a line of the output. -/
def turnedBytes (p : Params) (angle : Int) : Nat :=
  if angle = 180 then p.bytesPerLine
  else if p.Lineart then p.lines / 8 else p.lines * p.samples

/-- The index of the last byte of pixel `x` of line `y`. -/
def Params.lastByte (p : Params) (x y : Nat) : Nat :=
  if p.Lineart then y * p.bytesPerLine + x / 8
  else y * p.bytesPerLine + x * p.samples + (p.samples - 1)

/-- The parameters `o` describe an image in `out` that is the one in `buffer`, turned. -/
structure IsTurned (p : Params) (buffer : List SaneByte) (angle : Int) (o : Params)
    (out : List SaneByte) : Prop where
  format_eq : o.format = p.format
  depth_eq : o.depth = p.depth
  size_eq : (o.pixelsPerLine, o.lines) = turnedSize p angle
  row_le : o.rowSize ≤ o.bytesPerLine
  fits : o.bytesPerLine * o.lines ≤ buffer.length
  length_eq : out.length = buffer.length
  pixel_eq : ∀ x < o.pixelsPerLine, ∀ y < o.lines,
    o.pixel out x y = p.pixel buffer (turnedPoint p angle x y).1 (turnedPoint p angle x y).2

/-- Whatever the new memory holds, the image is turned, and if it has been turned by 180 degrees
    doing so once more restores it. -/
def Turns (img : Image) (angle : Int) : Prop :=
  ∀ fresh, ∃ o out, saneiMagicTurn fresh img.params img.buffer angle = .ok (.good, o, out) ∧
    IsTurned img.params img.buffer angle o out ∧
    (angle = 180 → ∀ fresh', ∃ o' out',
      saneiMagicTurn fresh' o out 180 = .ok (.good, o', out') ∧ o' = img.params ∧
      ∀ x < img.params.pixelsPerLine, ∀ y < img.params.lines,
        img.params.pixel out' x y = img.params.pixel img.buffer x y)

/-! ### The loops -/

/-- Every cell of the output that belongs to a pixel gets the byte it is taken from. -/
theorem turnSamples_ok {o : Params} {source : Nat → Nat → Nat → Nat} {buffer mem : List SaneByte}
    (hlen : mem.length = o.bytesPerLine * o.lines) (hsize : o.bytesPerLine * o.lines < 2 ^ 31)
    (hrow : o.pixelsPerLine * o.samples ≤ o.bytesPerLine)
    (hsource : ∀ i < o.lines, ∀ j < o.pixelsPerLine, ∀ k < o.samples,
      source i j k < buffer.length)
    (hindex : ∀ i < o.lines, ∀ j < o.pixelsPerLine, ∀ k < o.samples, source i j k < 2 ^ 31) :
    ∃ out, turnSamples o source buffer mem = .ok out ∧
      out.length = o.bytesPerLine * o.lines ∧
      ∀ i < o.lines, ∀ j < o.pixelsPerLine, ∀ k < o.samples,
        out[i * o.bytesPerLine + j * o.samples + k]? = buffer[source i j k]? := by
  -- the points that are worked off: line, column and sample
  let inv : List SaneByte → Prop := fun mem => mem.length = o.bytesPerLine * o.lines
  let good : Nat × Nat × Nat → List SaneByte → Prop := fun q mem =>
    q.1 < o.lines → q.2.1 < o.pixelsPerLine → q.2.2 < o.samples →
      mem[q.1 * o.bytesPerLine + q.2.1 * o.samples + q.2.2]? = buffer[source q.1 q.2.1 q.2.2]?
  have hall : Completes inv good (turnSamples o source buffer)
      {q | ∃ i < o.lines, ∃ j < o.pixelsPerLine, ∃ k < o.samples, q ∈ ({(i, j, k)} : Set _)} := by
    apply Completes.turns
    intro i hi
    apply Completes.turns
    intro j hj
    apply Completes.turns
    intro k hk
    apply Completes.point
    intro mem hmem
    have hcolumn := sampleColumn_lt hrow hj hk
    have hstore : i * o.bytesPerLine + j * o.samples + k < mem.length := by
      rw [hmem, Nat.add_assoc]
      exact rowAddress_lt hi hcolumn
    have hload := hsource i hi j hj k hk
    refine ⟨mem.set (i * o.bytesPerLine + j * o.samples + k) buffer[source i j k],
      ?_, ?_, ?_, ?_⟩
    · rw [intIndex_of_lt (hindex i hi j hj k hk), ok_bind, cellAt_of_lt hload, ok_bind,
        intIndex_of_lt (by omega)]
      exact setCell_of_lt hstore
    · exact List.length_set.trans hmem
    · intro _ _ _
      rw [List.getElem?_set_self hstore, List.getElem?_eq_getElem hload]
    · rintro ⟨i', j', k'⟩ hne hgood hi' hj' hk'
      rw [List.getElem?_set_ne]
      · exact hgood hi' hj' hk'
      · -- distinct points have distinct cells
        intro heq
        rw [Nat.add_assoc, Nat.add_assoc] at heq
        obtain ⟨rfl, hcol⟩ := rowAddress_inj hcolumn (sampleColumn_lt hrow hj' hk') heq
        obtain ⟨rfl, rfl⟩ := rowAddress_inj hk hk' hcol
        exact hne rfl
  obtain ⟨out, hrun, hout, hgood⟩ := hall.run hlen
  refine ⟨out, hrun, hout, ?_⟩
  intro i hi j hj k hk
  exact hgood (i, j, k) ⟨i, hi, j, hj, k, hk, rfl⟩ hi hj hk

/-- Every bit of the output that belongs to a pixel gets the bit it is taken from, and the others
    stay. -/
theorem turnBits_ok {o : Params} {source : Nat → Nat → Nat × Nat} {buffer mem : List SaneByte}
    (hlen : mem.length = o.bytesPerLine * o.lines) (hsize : o.bytesPerLine * o.lines < 2 ^ 31)
    (hrow : (o.pixelsPerLine + 7) / 8 ≤ o.bytesPerLine)
    (hsource : ∀ i < o.lines, ∀ j < o.pixelsPerLine, (source i j).1 < buffer.length)
    (hindex : ∀ i < o.lines, ∀ j < o.pixelsPerLine, (source i j).1 < 2 ^ 31) :
    ∃ out, turnBits o source buffer mem = .ok out ∧
      out.length = o.bytesPerLine * o.lines ∧
      (∀ i < o.lines, ∀ j < o.pixelsPerLine,
        pixelBit o.bytesPerLine out j i = bitIn buffer (source i j).1 (source i j).2) ∧
      ∀ y, ∀ c < o.bytesPerLine, ∀ n, (∀ x < o.pixelsPerLine, n ≠ 7 - x % 8 ∨ c ≠ x / 8) →
        bitIn out (y * o.bytesPerLine + c) n = bitIn mem (y * o.bytesPerLine + c) n := by
  let inv : List SaneByte → Prop := fun mem' => mem'.length = o.bytesPerLine * o.lines ∧
    ∀ y, ∀ c < o.bytesPerLine, ∀ n, (∀ x < o.pixelsPerLine, n ≠ 7 - x % 8 ∨ c ≠ x / 8) →
      bitIn mem' (y * o.bytesPerLine + c) n = bitIn mem (y * o.bytesPerLine + c) n
  let good : Nat × Nat → List SaneByte → Prop := fun q mem =>
    q.1 < o.lines → q.2 < o.pixelsPerLine →
      pixelBit o.bytesPerLine mem q.2 q.1 = bitIn buffer (source q.1 q.2).1 (source q.1 q.2).2
  have hall : Completes inv good (turnBits o source buffer)
      {q | ∃ i < o.lines, ∃ j < o.pixelsPerLine, q ∈ ({(i, j)} : Set _)} := by
    apply Completes.turns
    intro i hi
    apply Completes.turns
    intro j hj
    apply Completes.point
    rintro mem' ⟨hmem, hothers⟩
    have hcolumn := bitColumn_lt hrow hj
    have hstore : i * o.bytesPerLine + j / 8 < mem'.length := by
      rw [hmem]
      exact rowAddress_lt hi hcolumn
    obtain ⟨next, hput, hlen', hbits⟩ := putBit_of_lt (n := 7 - j % 8)
      (v := bitIn buffer (source i j).1 (source i j).2) hstore (by omega)
    refine ⟨next, ?_, ⟨hlen'.trans hmem, ?_⟩, ?_, ?_⟩
    · rw [intIndex_of_lt (hindex i hi j hj), ok_bind, readBit_of_lt (hsource i hi j hj), ok_bind,
        intIndex_of_lt (by omega)]
      exact hput
    · intro y c hc n hnone
      rw [hbits, if_neg]
      · exact hothers y c hc n hnone
      · rintro ⟨haddr, hbit⟩
        obtain ⟨_, hbyte⟩ := rowAddress_inj hc hcolumn haddr
        exact (hnone j hj).elim (· hbit) (· hbyte)
    · intro _ _
      rw [pixelBit, hbits, if_pos ⟨rfl, rfl⟩]
    · rintro ⟨i', j'⟩ hne hgood hi' hj'
      rw [pixelBit, hbits, if_neg]
      · exact hgood hi' hj'
      · intro hsame
        obtain ⟨rfl, rfl⟩ := pixelBit_inj (bitColumn_lt hrow hj') hcolumn hsame
        exact hne rfl
  obtain ⟨out, hrun, ⟨hout, hothers⟩, hgood⟩ := hall.run ⟨hlen, fun _ _ _ _ _ => rfl⟩
  refine ⟨out, hrun, hout, ?_, hothers⟩
  intro i hi j hj
  exact hgood (i, j) ⟨i, hi, j, hj, rfl⟩ hi hj

/-! ### The parameters of the output -/

/-- The output is no larger than the input. -/
theorem turned_fits {w d bw h : Nat} (hrow : w * d ≤ bw) : h * d * w ≤ bw * h := by
  calc h * d * w = w * d * h := by ring
    _ ≤ bw * h := Nat.mul_le_mul_right h hrow

theorem turnedBits_fits {w bw h : Nat} (hrow : (w + 7) / 8 ≤ bw) : h / 8 * w ≤ bw * h := by
  have hw : w ≤ 8 * bw := by omega
  calc h / 8 * w ≤ h / 8 * (8 * bw) := Nat.mul_le_mul_left _ hw
    _ = 8 * (h / 8) * bw := by ring
    _ ≤ h * bw := Nat.mul_le_mul_right bw (Nat.mul_div_le h 8)
    _ = bw * h := Nat.mul_comm h bw

/-- The image that the parameters of the output describe. -/
theorem turnedParams_ok (img : Image) {angle : Int} (hangle : IsQuarter angle) :
    ∃ o, turnedParams img.params (quarterTurns angle) = .ok o ∧
      o.format = img.params.format ∧ o.depth = img.params.depth ∧
      (o.pixelsPerLine, o.lines) = turnedSize img.params angle ∧
      o.bytesPerLine = turnedBytes img.params angle ∧ o.rowSize ≤ o.bytesPerLine ∧
      o.bytesPerLine * o.lines ≤ img.params.bytesPerLine * img.params.lines := by
  have hrow := img.row_le
  have hside : ∀ turn, turn = 1 ∨ turn = 3 → ∀ a : Int, a ≠ 180 →
      ∃ o, turnedParams img.params turn = .ok o ∧
      o.format = img.params.format ∧ o.depth = img.params.depth ∧
      (o.pixelsPerLine, o.lines) = turnedSize img.params a ∧
      o.bytesPerLine = turnedBytes img.params a ∧ o.rowSize ≤ o.bytesPerLine ∧
      o.bytesPerLine * o.lines ≤ img.params.bytesPerLine * img.params.lines := by
    intro turn hturn a ha
    rcases img.supported with hs | hl
    · refine ⟨_, (if_pos hturn).trans (if_pos hs), rfl, rfl, ?_, ?_, ?_, ?_⟩
      · rw [turnedSize, if_neg ha, if_neg hs.not_lineart]
      · rw [turnedBytes, if_neg ha, if_neg hs.not_lineart]
      · rw [Params.rowSize, if_neg]
        · exact Nat.le_refl _
        · exact hs.not_lineart
      · rw [hs.rowSize_eq] at hrow
        exact turned_fits hrow
    · refine ⟨_, (if_pos hturn).trans ((if_neg hl.not_sampled).trans (if_pos hl)), rfl, rfl,
        ?_, ?_, ?_, ?_⟩
      · rw [turnedSize, if_neg ha, if_pos hl, Nat.mul_comm]
      · rw [turnedBytes, if_neg ha, if_pos hl]
      · rw [Params.rowSize, if_pos]
        · show (img.params.lines / 8 * 8 + 7) / 8 ≤ img.params.lines / 8
          omega
        · exact hl
      · rw [hl.rowSize_eq] at hrow
        exact turnedBits_fits hrow
  rcases hangle with rfl | rfl | rfl
  · exact hside 1 (Or.inl rfl) 90 (by decide)
  · exact ⟨img.params, rfl, rfl, rfl, rfl, rfl, hrow, Nat.le_refl _⟩
  · exact hside 3 (Or.inr rfl) 270 (by decide)

/-! ### Where the pixels are taken from -/

/-- The bit that is taken for pixel `x` of line `y` when the columns are reversed. -/
def seenBit (p : Params) (buffer : List SaneByte) (x y : Nat) : Bool :=
  bitIn buffer (y * p.bytesPerLine + x / 8) ((p.pixelsPerLine - 1 - x) % 8)

/-- The pixel that is taken for pixel `x` of line `y`. -/
def takenPixel (p : Params) (buffer : List SaneByte) (angle : Int) (x y : Nat) : List Nat :=
  if p.Lineart ∧ angle ≠ 90 then [(seenBit p buffer x y).toNat] else p.pixel buffer x y

section Points

variable (p : Params) (x y : Nat)

theorem turnedPoint_quarter : turnedPoint p 90 x y = (y, p.lines - 1 - x) := rfl

theorem turnedPoint_half :
    turnedPoint p 180 x y = (p.pixelsPerLine - 1 - x, p.lines - 1 - y) := rfl

theorem turnedPoint_threeQuarters :
    turnedPoint p 270 x y = (p.pixelsPerLine - 1 - y, x) := rfl

end Points

theorem turnedPoint_lt {p o : Params} {angle : Int} {x y : Nat} (hangle : IsQuarter angle)
    (hsize : (o.pixelsPerLine, o.lines) = turnedSize p angle) (hx : x < o.pixelsPerLine)
    (hy : y < o.lines) : (turnedPoint p angle x y).1 < p.pixelsPerLine ∧
      (turnedPoint p angle x y).2 < p.lines := by
  have hw : o.pixelsPerLine = (turnedSize p angle).1 := congrArg Prod.fst hsize
  have hh : o.lines = (turnedSize p angle).2 := congrArg Prod.snd hsize
  have hside : (if p.Lineart then 8 * (p.lines / 8) else p.lines) ≤ p.lines := by
    split <;> omega
  rcases hangle with rfl | rfl | rfl
  · rw [turnedSize, if_neg (by decide)] at hw hh
    rw [turnedPoint_quarter]
    exact ⟨by omega, by omega⟩
  · rw [turnedSize, if_pos rfl] at hw hh
    rw [turnedPoint_half]
    exact ⟨by omega, by omega⟩
  · rw [turnedSize, if_neg (by decide)] at hw hh
    rw [turnedPoint_threeQuarters]
    exact ⟨by omega, by omega⟩

theorem sampleSource_eq {p : Params} {angle : Int} (hangle : IsQuarter angle) (i j k : Nat) :
    sampleSource p (quarterTurns angle) i j k
      = (turnedPoint p angle j i).2 * p.bytesPerLine + (turnedPoint p angle j i).1 * p.samples
        + k := by
  rcases hangle with rfl | rfl | rfl
  · rw [turnedPoint_quarter, Nat.sub_right_comm]
    rfl
  · rw [turnedPoint_half, Nat.sub_right_comm p.lines, Nat.sub_right_comm p.pixelsPerLine]
    rfl
  · rw [turnedPoint_threeQuarters, Nat.sub_right_comm]
    rfl

/-- The byte is the one of the pixel, the bit is so for 90 degrees only. -/
theorem bitSource_eq {p : Params} (buffer : List SaneByte) {angle : Int} {i j : Nat}
    (hangle : IsQuarter angle) (hi : angle = 270 → i < p.pixelsPerLine)
    (hj : angle = 180 → j < p.pixelsPerLine) :
    (bitSource p (quarterTurns angle) i j).1
        = (turnedPoint p angle j i).2 * p.bytesPerLine + (turnedPoint p angle j i).1 / 8 ∧
      bitIn buffer (bitSource p (quarterTurns angle) i j).1
          (bitSource p (quarterTurns angle) i j).2
        = if angle = 90 then
            pixelBit p.bytesPerLine buffer (turnedPoint p angle j i).1 (turnedPoint p angle j i).2
          else seenBit p buffer (turnedPoint p angle j i).1 (turnedPoint p angle j i).2 := by
  rcases hangle with rfl | rfl | rfl
  · have haddr : (bitSource p (quarterTurns 90) i j).1
        = (turnedPoint p 90 j i).2 * p.bytesPerLine + (turnedPoint p 90 j i).1 / 8 := by
      rw [turnedPoint_quarter, Nat.sub_right_comm]
      rfl
    refine ⟨haddr, ?_⟩
    rw [haddr]
    rfl
  · have hlt := hj rfl
    have haddr : (bitSource p (quarterTurns 180) i j).1
        = (turnedPoint p 180 j i).2 * p.bytesPerLine + (turnedPoint p 180 j i).1 / 8 := by
      rw [turnedPoint_half, Nat.sub_right_comm p.lines, Nat.sub_right_comm p.pixelsPerLine]
      rfl
    have hshift : (p.pixelsPerLine - 1 - (p.pixelsPerLine - 1 - j)) % 8 = j % 8 := by
      congr 1
      omega
    refine ⟨haddr, ?_⟩
    rw [haddr, if_neg (by decide), seenBit, turnedPoint_half, hshift]
    rfl
  · have hlt := hi rfl
    have haddr : (bitSource p (quarterTurns 270) i j).1
        = (turnedPoint p 270 j i).2 * p.bytesPerLine + (turnedPoint p 270 j i).1 / 8 := by
      rw [turnedPoint_threeQuarters, Nat.sub_right_comm]
      rfl
    have hshift : (p.pixelsPerLine - 1 - (p.pixelsPerLine - 1 - i)) % 8 = i % 8 := by
      congr 1
      omega
    refine ⟨haddr, ?_⟩
    rw [haddr, if_neg (by decide), seenBit, turnedPoint_threeQuarters, hshift]
    rfl

theorem bitSource_turned {p o : Params} (buffer : List SaneByte) {angle : Int} {i j : Nat}
    (hangle : IsQuarter angle) (hsize : (o.pixelsPerLine, o.lines) = turnedSize p angle)
    (hj : j < o.pixelsPerLine) (hi : i < o.lines) :
    (bitSource p (quarterTurns angle) i j).1
        = (turnedPoint p angle j i).2 * p.bytesPerLine + (turnedPoint p angle j i).1 / 8 ∧
      bitIn buffer (bitSource p (quarterTurns angle) i j).1
          (bitSource p (quarterTurns angle) i j).2
        = if angle = 90 then
            pixelBit p.bytesPerLine buffer (turnedPoint p angle j i).1 (turnedPoint p angle j i).2
          else seenBit p buffer (turnedPoint p angle j i).1 (turnedPoint p angle j i).2 := by
  apply bitSource_eq buffer hangle
  · rintro rfl
    have hh : o.lines = p.pixelsPerLine := congrArg Prod.snd hsize
    exact hh ▸ hi
  · rintro rfl
    have hw : o.pixelsPerLine = p.pixelsPerLine := congrArg Prod.fst hsize
    exact hw ▸ hj

/-- A buffer whose beginning has been replaced by a block. -/
theorem storeCells_zero {mem xs : List SaneByte} (h : xs.length ≤ mem.length) :
    storeCells mem 0 xs = .ok (xs ++ mem.drop xs.length) := by
  rw [storeCells, if_pos (by rwa [Nat.zero_add]), Overwrite.overwrite, List.take_zero,
    List.nil_append, Nat.zero_add]

section Runs

variable {fresh : Nat → SaneByte} {p o : Params} {buffer outbuf : List SaneByte} {angle : Int}

theorem saneiMagicTurn_sampled (ho : turnedParams p (quarterTurns angle) = .ok o)
    (hrow : o.bytesPerLine < 2 ^ 31) (hsize : o.bytesPerLine * o.lines < 2 ^ 31)
    (hs : p.Sampled) (hloops : turnSamples o (sampleSource p (quarterTurns angle)) buffer
      ((List.range (o.bytesPerLine * o.lines)).map fresh) = .ok outbuf)
    (hroom : outbuf.length ≤ buffer.length) :
    saneiMagicTurn fresh p buffer angle
      = .ok (.good, o, outbuf ++ buffer.drop outbuf.length) := by
  rw [saneiMagicTurn, ho]
  show (intIndex o.bytesPerLine >>= _) = _
  rw [intIndex_of_lt hrow, ok_bind, intIndex_of_lt hsize, ok_bind, if_pos hs, hloops, ok_bind,
    storeCells_zero hroom, ok_bind]

theorem saneiMagicTurn_lineart (ho : turnedParams p (quarterTurns angle) = .ok o)
    (hrow : o.bytesPerLine < 2 ^ 31) (hsize : o.bytesPerLine * o.lines < 2 ^ 31)
    (hl : p.Lineart) (hloops : turnBits o (bitSource p (quarterTurns angle)) buffer
      ((List.range (o.bytesPerLine * o.lines)).map fresh) = .ok outbuf)
    (hroom : outbuf.length ≤ buffer.length) :
    saneiMagicTurn fresh p buffer angle
      = .ok (.good, o, outbuf ++ buffer.drop outbuf.length) := by
  rw [saneiMagicTurn, ho]
  show (intIndex o.bytesPerLine >>= _) = _
  rw [intIndex_of_lt hrow, ok_bind, intIndex_of_lt hsize, ok_bind, if_neg hl.not_sampled,
    if_pos hl, hloops, ok_bind, storeCells_zero hroom, ok_bind]

end Runs

/-! ### Sizes and indices -/

/-- The size of the output and the indices of the bytes that are taken are `int`s. -/
structure SizesFit (p : Params) (angle : Int) : Prop where
  row_lt : turnedBytes p angle < 2 ^ 31
  size_lt : turnedBytes p angle * (turnedSize p angle).2 < 2 ^ 31
  index_lt : ∀ x < (turnedSize p angle).1, ∀ y < (turnedSize p angle).2,
    p.lastByte (turnedPoint p angle x y).1 (turnedPoint p angle x y).2 < 2 ^ 31

/-- A run that turns an image has computed them. -/
theorem sizesFit_of_run {img : Image} {angle : Int} (hangle : IsQuarter angle)
    {fresh : Nat → SaneByte} {r : SaneStatus × Params × List SaneByte}
    (hrun : saneiMagicTurn fresh img.params img.buffer angle = .ok r) :
    SizesFit img.params angle := by
  obtain ⟨o, ho, hformat, hdepth, hsize, hbytes, _, _⟩ := turnedParams_ok img hangle
  have hw : o.pixelsPerLine = (turnedSize img.params angle).1 := congrArg Prod.fst hsize
  have hh : o.lines = (turnedSize img.params angle).2 := congrArg Prod.snd hsize
  have hs := samples_congr hformat
  rw [saneiMagicTurn, ho] at hrun
  obtain ⟨obwidth, hobwidth, hrun⟩ := bind_eq_ok.mp hrun
  obtain ⟨hrow, rfl⟩ := intIndex_eq_ok.mp hobwidth
  obtain ⟨size, hsize', hrun⟩ := bind_eq_ok.mp hrun
  obtain ⟨htotal, rfl⟩ := intIndex_eq_ok.mp hsize'
  refine ⟨hbytes ▸ hrow, hbytes ▸ hh ▸ htotal, ?_⟩
  rw [← hw, ← hh]
  intro x hx y hy
  rcases img.supported with hsampled | hlineart
  · rw [if_pos hsampled] at hrun
    obtain ⟨outbuf, hloops, _⟩ := bind_eq_ok.mp hrun
    obtain ⟨_, _, hline⟩ := turns_each hloops hy
    obtain ⟨_, _, hpixel⟩ := turns_each hline hx
    obtain ⟨_, _, hbyte⟩ := turns_each hpixel (Nat.sub_lt o.samples_pos Nat.one_pos)
    obtain ⟨_, hindex, _⟩ := bind_eq_ok.mp hbyte
    have hlt := (intIndex_eq_ok.mp hindex).1
    rw [sampleSource_eq hangle, hs] at hlt
    rwa [Params.lastByte, if_neg hsampled.not_lineart]
  · rw [if_neg hlineart.not_sampled, if_pos hlineart] at hrun
    obtain ⟨outbuf, hloops, _⟩ := bind_eq_ok.mp hrun
    obtain ⟨_, _, hline⟩ := turns_each hloops hy
    obtain ⟨_, _, hbit⟩ := turns_each hline hx
    obtain ⟨_, hindex, _⟩ := bind_eq_ok.mp hbit
    have hlt := (intIndex_eq_ok.mp hindex).1
    rw [(bitSource_turned img.buffer hangle hsize hx hy).1] at hlt
    rwa [Params.lastByte, if_pos hlineart]

/-- The image is turned, up to the choice of the bits.  Bits that are no pixels are left as they
    were in the new memory. -/
theorem magicTurn_ok (img : Image) {angle : Int} (hangle : IsQuarter angle)
    (hints : SizesFit img.params angle) (fresh : Nat → SaneByte) :
    ∃ o out, turnedParams img.params (quarterTurns angle) = .ok o ∧
      saneiMagicTurn fresh img.params img.buffer angle = .ok (.good, o, out) ∧
      out.length = img.buffer.length ∧
      (∀ x < o.pixelsPerLine, ∀ y < o.lines, o.pixel out x y
        = takenPixel img.params img.buffer angle (turnedPoint img.params angle x y).1
            (turnedPoint img.params angle x y).2) ∧
      (img.params.Lineart → ∀ y < o.lines, ∀ c < o.bytesPerLine, ∀ n,
        (∀ x < o.pixelsPerLine, n ≠ 7 - x % 8 ∨ c ≠ x / 8) →
        bitIn out (y * o.bytesPerLine + c) n = bitOf (fresh (y * o.bytesPerLine + c)) n) := by
  obtain ⟨o, ho, hformat, hdepth, hsize, hbytes, hrow, hfits⟩ := turnedParams_ok img hangle
  have hfresh : ((List.range (o.bytesPerLine * o.lines)).map fresh).length
      = o.bytesPerLine * o.lines := by rw [List.length_map, List.length_range]
  rw [← img.length_buffer] at hfits
  obtain ⟨hline, htotal, hindex⟩ := hints
  rw [← hbytes] at hline
  have hw : o.pixelsPerLine = (turnedSize img.params angle).1 := congrArg Prod.fst hsize
  have hh : o.lines = (turnedSize img.params angle).2 := congrArg Prod.snd hsize
  rw [← hbytes, ← hh] at htotal
  rw [← hw, ← hh] at hindex
  have hpoint : ∀ i < o.lines, ∀ j < o.pixelsPerLine, _ := fun i hi j hj =>
    turnedPoint_lt hangle hsize hj hi
  have hs := samples_congr hformat
  rcases img.supported with hsampled | hlineart
  · have hol : ¬ o.Lineart := (lineart_congr hformat hdepth).not.mpr hsampled.not_lineart
    rw [Params.rowSize, if_neg hol] at hrow
    have hsource : ∀ i < o.lines, ∀ j < o.pixelsPerLine, ∀ k < o.samples,
        sampleSource img.params (quarterTurns angle) i j k < img.buffer.length := by
      intro i hi j hj k hk
      rw [sampleSource_eq hangle]
      obtain ⟨hx, hy⟩ := hpoint i hi j hj
      exact img.sampleAddress_lt hsampled hx hy (hs ▸ hk)
    have hsourceIndex : ∀ i < o.lines, ∀ j < o.pixelsPerLine, ∀ k < o.samples,
        sampleSource img.params (quarterTurns angle) i j k < 2 ^ 31 := by
      intro i hi j hj k hk
      have hlast := hindex j hj i hi
      rw [Params.lastByte, if_neg hsampled.not_lineart] at hlast
      rw [sampleSource_eq hangle]
      omega
    obtain ⟨outbuf, hloops, hlen, hpixels⟩ :=
      turnSamples_ok hfresh htotal hrow hsource hsourceIndex
    have hroom : outbuf.length ≤ img.buffer.length := by rwa [hlen]
    refine ⟨o, outbuf ++ img.buffer.drop outbuf.length, ho,
      saneiMagicTurn_sampled ho hline htotal hsampled hloops hroom, ?_, ?_,
      fun h => absurd h hsampled.not_lineart⟩
    · rw [List.length_append, List.length_drop]
      omega
    · intro x hx y hy
      rw [takenPixel, if_neg (fun h => hsampled.not_lineart h.1)]
      apply pixel_of_samples hol hsampled.not_lineart hs
      intro k hk
      rw [← sampleSource_eq hangle, ← hpixels y hy x hx k hk, List.getElem?_append_left]
      rw [hlen, Nat.add_assoc]
      exact rowAddress_lt hy (sampleColumn_lt hrow hx hk)
  · have hol : o.Lineart := (lineart_congr hformat hdepth).mpr hlineart
    rw [hol.rowSize_eq] at hrow
    have hsrc : ∀ i < o.lines, ∀ j < o.pixelsPerLine, _ := fun i hi j hj =>
      bitSource_turned img.buffer hangle hsize hj hi
    have hsource : ∀ i < o.lines, ∀ j < o.pixelsPerLine,
        (bitSource img.params (quarterTurns angle) i j).1 < img.buffer.length := by
      intro i hi j hj
      rw [(hsrc i hi j hj).1]
      obtain ⟨hx, hy⟩ := hpoint i hi j hj
      exact img.bitAddress_lt hlineart hx hy
    have hsourceIndex : ∀ i < o.lines, ∀ j < o.pixelsPerLine,
        (bitSource img.params (quarterTurns angle) i j).1 < 2 ^ 31 := by
      intro i hi j hj
      have hlast := hindex j hj i hi
      rwa [Params.lastByte, if_pos hlineart, ← (hsrc i hi j hj).1] at hlast
    obtain ⟨outbuf, hloops, hlen, hbits, hspare⟩ :=
      turnBits_ok hfresh htotal hrow hsource hsourceIndex
    have hroom : outbuf.length ≤ img.buffer.length := by rwa [hlen]
    refine ⟨o, outbuf ++ img.buffer.drop outbuf.length, ho,
      saneiMagicTurn_lineart ho hline htotal hlineart hloops hroom, ?_, ?_, ?_⟩
    · rw [List.length_append, List.length_drop]
      omega
    · intro x hx y hy
      have hbit := (hbits y hy x hx).trans (hsrc y hy x hx).2
      have hin : y * o.bytesPerLine + x / 8 < outbuf.length := by
        rw [hlen]
        exact rowAddress_lt hy (bitColumn_lt hrow hx)
      have hkeep : pixelBit o.bytesPerLine (outbuf ++ img.buffer.drop outbuf.length) x y
          = pixelBit o.bytesPerLine outbuf x y := bitIn_append hin
      rw [Params.pixel, if_pos hol, hkeep, hbit, takenPixel]
      by_cases hquarter : angle = 90
      · rw [if_pos hquarter, if_neg (fun h => h.2 hquarter), Params.pixel, if_pos hlineart]
      · rw [if_neg hquarter, if_pos ⟨hlineart, hquarter⟩]

    · intro _ y hy c hc n hnone
      have hin : y * o.bytesPerLine + c < o.bytesPerLine * o.lines := rowAddress_lt hy hc
      rw [bitIn_append (by rwa [hlen]), hspare y c hc n hnone, bitIn,
        List.getD_eq_getElem _ _ (by rwa [hfresh]), List.getElem_map, List.getElem_range]

/-! ### When an image is turned -/

/-- The sizes and indices are `int`s.  Black and white images are turned by 180 degrees only if
    there is no line that ends within a byte, and by 270 degrees only if each pixel has the value
    of the bit that is taken for it. -/
structure TurnsRight (img : Image) (angle : Int) : Prop where
  sizes : SizesFit img.params angle
  half : img.params.Lineart → angle = 180 → 8 ∣ img.params.pixelsPerLine ∨ img.params.lines = 0
  threeQuarters : img.params.Lineart → angle = 270 →
    ∀ x < img.params.pixelsPerLine, ∀ y < 8 * (img.params.lines / 8),
      seenBit img.params img.buffer x y = pixelBit img.params.bytesPerLine img.buffer x y

/-- If lines consist of whole bytes, the bit that is taken is the one of the pixel. -/
theorem seenBit_of_dvd {p : Params} {buffer : List SaneByte} {x y : Nat}
    (hw : 8 ∣ p.pixelsPerLine) (hx : x < p.pixelsPerLine) :
    seenBit p buffer x y = pixelBit p.bytesPerLine buffer x y := by
  have hshift : (p.pixelsPerLine - 1 - x) % 8 = 7 - x % 8 := by omega
  rw [seenBit, pixelBit, hshift]

theorem takenPixel_eq {p : Params} {buffer : List SaneByte} {angle : Int} {x y : Nat}
    (h : p.Lineart → angle ≠ 90 →
      seenBit p buffer x y = pixelBit p.bytesPerLine buffer x y) :
    takenPixel p buffer angle x y = p.pixel buffer x y := by
  unfold takenPixel
  split
  · rename_i hboth
    rw [h hboth.1 hboth.2, Params.pixel, if_pos hboth.1]
  · rfl

/-- An image that has been turned by 180 degrees. -/
def Image.withBuffer (img : Image) (out : List SaneByte)
    (h : out.length = img.buffer.length) : Image :=
  { img with buffer := out, length_buffer := h.trans img.length_buffer }

theorem turnedPoint_half_half {p : Params} {x y : Nat} (hx : x < p.pixelsPerLine)
    (hy : y < p.lines) :
    turnedPoint p 180 (turnedPoint p 180 x y).1 (turnedPoint p 180 x y).2 = (x, y) := by
  rw [turnedPoint_half, turnedPoint_half]
  congr 1 <;> omega

/-- The image comes out as it should if the bits that are taken are the right ones. -/
theorem isTurned_of_taken (img : Image) {angle : Int} (hangle : IsQuarter angle)
    (hints : SizesFit img.params angle)
    (htaken : ∀ x < img.params.pixelsPerLine, ∀ y < img.params.lines,
      (angle = 270 → img.params.Lineart → y < 8 * (img.params.lines / 8)) →
      takenPixel img.params img.buffer angle x y = img.params.pixel img.buffer x y)
    (fresh : Nat → SaneByte) :
    ∃ o out, turnedParams img.params (quarterTurns angle) = .ok o ∧
      saneiMagicTurn fresh img.params img.buffer angle = .ok (.good, o, out) ∧
      IsTurned img.params img.buffer angle o out := by
  obtain ⟨o, out, ho, hrun, hlen, hpixels, _⟩ := magicTurn_ok img hangle hints fresh
  obtain ⟨o', ho', hformat, hdepth, hsize, _, hrow, hfits⟩ := turnedParams_ok img hangle
  obtain rfl : o = o' := Except.ok.inj (ho.symm.trans ho')
  rw [← img.length_buffer] at hfits
  refine ⟨o, out, ho, hrun, hformat, hdepth, hsize, hrow, hfits, hlen, ?_⟩
  intro x hx y hy
  obtain ⟨hx', hy'⟩ := turnedPoint_lt hangle hsize hx hy
  rw [hpixels x hx y hy]
  apply htaken _ hx' _ hy'
  rintro rfl hl
  have hw : o.pixelsPerLine = if img.params.Lineart then 8 * (img.params.lines / 8)
      else img.params.lines := congrArg Prod.fst hsize
  rw [if_pos hl] at hw
  exact hw ▸ hx

theorem turns_of_right {img : Image} {angle : Int} (hangle : IsQuarter angle)
    (h : TurnsRight img angle) : Turns img angle := by
  intro fresh
  by_cases hhalf : angle = 180
  · subst hhalf
    have htaken : ∀ buffer, ∀ x < img.params.pixelsPerLine, ∀ y < img.params.lines,
        takenPixel img.params buffer 180 x y = img.params.pixel buffer x y := by
      intro buffer x hx y hy
      apply takenPixel_eq
      intro hl _
      rcases h.half hl rfl with hdvd | hnone
      · exact seenBit_of_dvd hdvd hx
      · omega
    obtain ⟨o, out, ho, hrun, hturned⟩ := isTurned_of_taken img hangle h.sizes
      (fun x hx y hy _ => htaken img.buffer x hx y hy) fresh
    obtain rfl : img.params = o := Except.ok.inj ho
    refine ⟨img.params, out, hrun, hturned, ?_⟩
    intro _ fresh'
    obtain ⟨o', out', ho', hrun', hturned'⟩ := isTurned_of_taken
      (img.withBuffer out hturned.length_eq) hangle h.sizes
      (fun x hx y hy _ => htaken out x hx y hy) fresh'
    obtain rfl : img.params = o' := Except.ok.inj ho'
    refine ⟨img.params, out', hrun', rfl, ?_⟩
    intro x hx y hy
    obtain ⟨hx', hy'⟩ := turnedPoint_lt hangle hturned.size_eq hx hy
    have hfirst := hturned.pixel_eq _ hx' _ hy'
    rw [turnedPoint_half_half hx hy] at hfirst
    exact (hturned'.pixel_eq x hx y hy).trans hfirst
  · obtain ⟨o, out, _, hrun, hturned⟩ := isTurned_of_taken img hangle h.sizes
      (by
        intro x hx y _ hin
        apply takenPixel_eq
        intro hl hquarter
        have hthree : angle = 270 := (hangle.resolve_left hquarter).resolve_left hhalf
        exact h.threeQuarters hl hthree x hx y (hin hthree hl)) fresh
    exact ⟨o, out, hrun, hturned, fun h => absurd h hhalf⟩

/-- Turning an image computes its sizes. -/
theorem Turns.sizes {img : Image} {angle : Int} (h : Turns img angle)
    (hangle : IsQuarter angle) : SizesFit img.params angle := by
  obtain ⟨_, _, hrun, _⟩ := h fun _ => 0
  exact sizesFit_of_run hangle hrun

/-- What is shown where a black and white image has been turned on its left side. -/
theorem seenBit_of_turns {img : Image} (h : Turns img 270) (hl : img.params.Lineart) {x y : Nat}
    (hx : x < img.params.pixelsPerLine) (hy : y < 8 * (img.params.lines / 8)) :
    seenBit img.params img.buffer x y = pixelBit img.params.bytesPerLine img.buffer x y := by
  have hangle : IsQuarter 270 := Or.inr (Or.inr rfl)
  obtain ⟨o, out, hrun, hturned, _⟩ := h fun _ => 0
  obtain ⟨o', out', _, hrun', _, hpixels, _⟩ :=
    magicTurn_ok img hangle (h.sizes hangle) fun _ => 0
  obtain ⟨rfl, rfl⟩ := Prod.mk.inj (Prod.mk.inj (Except.ok.inj (hrun.symm.trans hrun'))).2
  have hw : o.pixelsPerLine = if img.params.Lineart then 8 * (img.params.lines / 8)
      else img.params.lines := congrArg Prod.fst hturned.size_eq
  have hh : o.lines = img.params.pixelsPerLine := congrArg Prod.snd hturned.size_eq
  rw [if_pos hl] at hw
  have hx' : y < o.pixelsPerLine := hw ▸ hy
  have hy' : img.params.pixelsPerLine - 1 - x < o.lines := by omega
  have hpoint : turnedPoint img.params 270 y (img.params.pixelsPerLine - 1 - x) = (x, y) := by
    rw [turnedPoint_threeQuarters]
    congr 1
    omega
  have hsame := (hpixels _ hx' _ hy').symm.trans (hturned.pixel_eq _ hx' _ hy')
  rw [hpoint, takenPixel, if_pos ⟨hl, by decide⟩, Params.pixel, if_pos hl] at hsame
  exact bit_of_singleton hsame

/-- Turning twice shows a bit that was never written, at the left edge, if lines end within a
    byte. -/
theorem dvd_of_turns {img : Image} (h : Turns img 180) (hl : img.params.Lineart)
    (hlines : 0 < img.params.lines) : 8 ∣ img.params.pixelsPerLine := by
  by_contra hdvd
  have hangle : IsQuarter 180 := Or.inr (Or.inl rfl)
  have hwidth : 0 < img.params.pixelsPerLine := by
    rcases Nat.eq_zero_or_pos img.params.pixelsPerLine with hzero | hpos
    · exact absurd (hzero ▸ Nat.dvd_zero 8) hdvd
    · exact hpos
  -- the new memory holds the complement of the first pixel
  obtain ⟨fresh, hfresh⟩ : ∃ fresh : Nat → SaneByte, ∀ i, bitOf (fresh i) 0
      = !pixelBit img.params.bytesPerLine img.buffer 0 0 := by
    have hone : bitOf 1 0 = true := by decide
    have hzero : bitOf 0 0 = false := by decide
    cases pixelBit img.params.bytesPerLine img.buffer 0 0 with
    | false => exact ⟨fun _ => 1, fun _ => hone⟩
    | true => exact ⟨fun _ => 0, fun _ => hzero⟩
  obtain ⟨o, out, hrun, hturned, hagain⟩ := h fresh
  obtain ⟨o₁, out₁, ho₁, hrun₁, hlen₁, _, hspare⟩ :=
    magicTurn_ok img hangle (h.sizes hangle) fresh
  obtain ⟨rfl, rfl⟩ := Prod.mk.inj (Prod.mk.inj (Except.ok.inj (hrun.symm.trans hrun₁))).2
  obtain rfl : img.params = o := Except.ok.inj ho₁
  obtain ⟨o', out', hrun', rfl, hback⟩ := hagain rfl fun _ => 0
  obtain ⟨o₂, out₂, ho₂, hrun₂, _, hpixels, _⟩ :=
    magicTurn_ok (img.withBuffer out hlen₁) hangle (h.sizes hangle) fun _ => 0
  obtain ⟨rfl, rfl⟩ := Prod.mk.inj (Prod.mk.inj (Except.ok.inj (hrun'.symm.trans hrun₂))).2
  have hsame := (hpixels 0 hwidth 0 hlines).symm.trans (hback 0 hwidth 0 hlines)
  have hcolumn : (img.params.pixelsPerLine - 1) / 8 < img.params.bytesPerLine := by
    have hrow := img.row_le
    rw [hl.rowSize_eq] at hrow
    exact bitColumn_lt hrow (by omega)
  have hbit := hspare hl (img.params.lines - 1) (by omega) _ hcolumn 0 (by
    intro x hx
    by_contra hpixel
    push Not at hpixel
    exact hdvd (by omega))
  rw [hfresh] at hbit
  have hseen : seenBit img.params out (img.params.pixelsPerLine - 1) (img.params.lines - 1)
      = !pixelBit img.params.bytesPerLine img.buffer 0 0 := by
    rw [← hbit, seenBit, Nat.sub_self]
  change takenPixel img.params out 180 (img.params.pixelsPerLine - 1 - 0)
    (img.params.lines - 1 - 0) = _ at hsame
  rw [takenPixel, if_pos ⟨hl, by decide⟩, Nat.sub_zero, Nat.sub_zero, hseen, Params.pixel,
    if_pos hl] at hsame
  have hcontra := bit_of_singleton hsame
  cases hfirst : pixelBit img.params.bytesPerLine img.buffer 0 0 <;>
    rw [hfirst] at hcontra <;> exact absurd hcontra (by decide)

/-- An image is turned exactly if the bits that are taken are the right ones and nothing
    overflows. -/
theorem turns_iff (img : Image) {angle : Int} (hangle : IsQuarter angle) :
    Turns img angle ↔ TurnsRight img angle := by
  constructor
  · intro h
    refine ⟨h.sizes hangle, ?_, ?_⟩
    · rintro hl rfl
      rcases Nat.eq_zero_or_pos img.params.lines with hzero | hpos
      · exact Or.inr hzero
      · exact Or.inl (dvd_of_turns h hl hpos)
    · rintro hl rfl x hx y hy
      exact seenBit_of_turns h hl hx hy
  · exact turns_of_right hangle

/-- A black and white image of eight lines with three pixels each, the two of them on the left
    edge black in every line but the first and the last. -/
def strip : Image where
  params := { format := .gray, depth := 1, pixelsPerLine := 3, bytesPerLine := 1, lines := 8 }
  buffer := [0x00, 0xc0, 0xc0, 0xc0, 0xc0, 0xc0, 0xc0, 0x00]
  supported := Or.inr ⟨rfl, rfl⟩
  row_le := by decide
  length_buffer := rfl

/-- Turned by 90 degrees it has three lines with eight pixels each. -/
theorem turns_iff_strip : Turns strip 90 ∧
    saneiMagicTurn (fun _ => 0) strip.params strip.buffer 90 = .ok (.good,
      { strip.params with pixelsPerLine := 8, lines := 3 },
      [0x7e, 0x7e, 0x00, 0xc0, 0xc0, 0xc0, 0xc0, 0x00]) := by
  have hright : TurnsRight strip 90 := by
    refine ⟨⟨by decide, by decide, ?_⟩, fun _ h => absurd h (by decide),
      fun _ h => absurd h (by decide)⟩
    intro x hx y hy
    have hx : x < 8 := hx
    have hy : y < 3 := hy
    show (8 - 1 - x) * 1 + y / 8 < 2 ^ 31
    omega
  exact ⟨(turns_iff strip (Or.inl rfl)).mpr hright, by decide +kernel⟩

/-- One black pixel. -/
def dot : Image where
  params := { format := .gray, depth := 1, pixelsPerLine := 1, bytesPerLine := 1, lines := 1 }
  buffer := [0x80]
  supported := Or.inr ⟨rfl, rfl⟩
  row_le := by decide
  length_buffer := rfl

/-- It is lost when the image is turned by 180 degrees. -/
theorem turns_loses_dot : ¬ Turns dot 180 := by
  intro h
  obtain ⟨o, out, hrun, hturned, _⟩ := h fun _ => 0
  have hout : saneiMagicTurn (fun _ => 0) dot.params dot.buffer 180
      = .ok (.good, dot.params, [0]) := by decide
  obtain ⟨rfl, rfl⟩ := Prod.mk.inj (Prod.mk.inj (Except.ok.inj (hrun.symm.trans hout))).2
  have hpixel := hturned.pixel_eq 0 (by decide) 0 (by decide)
  exact absurd hpixel (by decide)

end SaneBackends.Magic
