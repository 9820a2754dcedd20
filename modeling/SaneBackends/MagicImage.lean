import SaneBackends.Cells
import SaneBackends.ScanimageBuffer
import Mathlib.Data.List.GetD

/-!
# Images in memory

The images that `sanei/sanei_magic.c` works on: colour images with three bytes for each
pixel, gray ones with one byte, and black and white ones with one bit, eight pixels to a
byte with the leftmost one in the highest bit.  The lines may be padded.
-/

namespace SaneBackends.Magic

open Scanimage (SaneFrame)

/-! ### Parameters -/

/-- The fields of `SANE_Parameters` that describe an image in memory. -/
structure Params where
  format : SaneFrame
  depth : Nat
  pixelsPerLine : Nat
  bytesPerLine : Nat
  lines : Nat
deriving DecidableEq, Repr

namespace Params

/-- `format == SANE_FRAME_RGB || (format == SANE_FRAME_GRAY && depth == 8)` -/
def Sampled (p : Params) : Prop := p.format = .rgb ∨ p.format = .gray ∧ p.depth = 8

/-- `format == SANE_FRAME_GRAY && depth == 1` -/
def Lineart (p : Params) : Prop := p.format = .gray ∧ p.depth = 1

instance (p : Params) : Decidable p.Sampled := inferInstanceAs (Decidable (_ ∨ _))

instance (p : Params) : Decidable p.Lineart := inferInstanceAs (Decidable (_ ∧ _))

/-- The local variable `depth`: the bytes of a pixel. -/
def samples (p : Params) : Nat := if p.format = .rgb then 3 else 1

/-- The bytes that the pixels of a line need. -/
def rowSize (p : Params) : Nat :=
  if p.Lineart then (p.pixelsPerLine + 7) / 8 else p.pixelsPerLine * p.samples

theorem Sampled.not_lineart {p : Params} (h : p.Sampled) : ¬ p.Lineart := by
  rintro ⟨hformat, hdepth⟩
  rcases h with hrgb | ⟨_, height⟩
  · rw [hformat] at hrgb
    exact nomatch hrgb
  · omega

theorem Lineart.not_sampled {p : Params} (h : p.Lineart) : ¬ p.Sampled :=
  fun hsampled => hsampled.not_lineart h

theorem Lineart.samples_eq {p : Params} (h : p.Lineart) : p.samples = 1 := by
  rw [samples, if_neg]
  rw [h.1]
  exact fun h => nomatch h

theorem samples_pos (p : Params) : 0 < p.samples := by
  unfold samples
  split <;> decide

theorem Sampled.rowSize_eq {p : Params} (h : p.Sampled) :
    p.rowSize = p.pixelsPerLine * p.samples := if_neg h.not_lineart

theorem Lineart.rowSize_eq {p : Params} (h : p.Lineart) :
    p.rowSize = (p.pixelsPerLine + 7) / 8 := if_pos h

end Params

theorem samples_congr {o p : Params} (h : o.format = p.format) : o.samples = p.samples := by
  rw [Params.samples, Params.samples, h]

theorem lineart_congr {o p : Params} (hf : o.format = p.format) (hd : o.depth = p.depth) :
    o.Lineart ↔ p.Lineart := by
  rw [Params.Lineart, Params.Lineart, hf, hd]

/-! ### Pixels -/

/-- `b >> n & 1` -/
def bitOf (b : SaneByte) (n : Nat) : Bool := b.getLsbD n

/-- `b |= 1 << n` or `b &= ~(1 << n)`. -/
def withBit (b : SaneByte) (n : Nat) (v : Bool) : SaneByte :=
  if v then b ||| 1#8 <<< n else b &&& ~~~(1#8 <<< n)

theorem bitOf_withBit {b : SaneByte} {n m : Nat} {v : Bool} (hn : n < 8) :
    bitOf (withBit b n v) m = if m = n then v else bitOf b m := by
  have hone : (1#8 <<< n).getLsbD m = decide (m = n) := by
    rw [BitVec.getLsbD_shiftLeft, BitVec.getLsbD_one]
    by_cases hmn : m = n
    · simp [hmn, hn]
    · have : ¬ (¬ m < n ∧ m - n = 0) := by omega
      simp only [hmn, decide_false, Bool.and_eq_false_iff, decide_eq_false_iff_not,
        Bool.not_eq_false']
      by_cases hlt : m < n
      · exact Or.inl (Or.inr (decide_eq_true hlt))
      · exact Or.inr (Or.inr (by omega))
  unfold bitOf withBit
  by_cases hm : m < 8
  · cases v with
    | true =>
      rw [if_pos rfl, BitVec.getLsbD_or, hone]
      by_cases hmn : m = n <;> simp [hmn]
    | false =>
      rw [if_neg (by decide), BitVec.getLsbD_and, BitVec.getLsbD_not, hone]
      by_cases hmn : m = n <;> simp [hmn, hm]
  · have hne : ¬ m = n := by omega
    have hge : 8 ≤ m := Nat.le_of_not_lt hm
    rw [if_neg hne, BitVec.getLsbD_of_ge _ _ hge, BitVec.getLsbD_of_ge _ _ hge]

/-- Bit `n` of the byte at an index. -/
def bitIn (mem : List SaneByte) (i n : Nat) : Bool := bitOf (mem.getD i 0) n

/-- `mem[i] >> n & 1` -/
def readBit (mem : List SaneByte) (i n : Nat) : Except Fault Bool := do
  .ok (bitOf (← cellAt mem i) n)

/-- `mem[i] |= 1 << n` or `mem[i] &= ~(1 << n)`. -/
def putBit (mem : List SaneByte) (i n : Nat) (v : Bool) : Except Fault (List SaneByte) := do
  setCell mem i (withBit (← cellAt mem i) n v)

theorem readBit_of_lt {mem : List SaneByte} {i : Nat} (h : i < mem.length) (n : Nat) :
    readBit mem i n = .ok (bitIn mem i n) := by
  rw [readBit, cellAt_of_lt h, bitIn, List.getD_eq_getElem _ _ h]
  rfl

/-- One bit is stored, all others stay. -/
theorem putBit_of_lt {mem : List SaneByte} {i n : Nat} {v : Bool} (h : i < mem.length)
    (hn : n < 8) : ∃ mem', putBit mem i n v = .ok mem' ∧ mem'.length = mem.length ∧
      ∀ i' n', bitIn mem' i' n' = if i' = i ∧ n' = n then v else bitIn mem i' n' := by
  refine ⟨mem.set i (withBit mem[i] n v), ?_, List.length_set, ?_⟩
  · rw [putBit, cellAt_of_lt h]
    exact setCell_of_lt h
  · intro i' n'
    by_cases hi : i' = i
    · subst hi
      rw [bitIn, List.getD_eq_getElem _ _ (by rwa [List.length_set]), List.getElem_set_self,
        bitOf_withBit hn, bitIn, List.getD_eq_getElem _ _ h]
      simp only [true_and]
    · rw [if_neg (fun hboth => hi hboth.1), bitIn, List.getD_eq_getElem?_getD,
        List.getElem?_set_ne (Ne.symm hi), ← List.getD_eq_getElem?_getD]
      rfl

theorem bitIn_append {mem rest : List SaneByte} {i n : Nat} (h : i < mem.length) :
    bitIn (mem ++ rest) i n = bitIn mem i n := by
  rw [bitIn, List.getD_append _ _ _ _ h, bitIn]

/-- The bit of pixel `x` of line `y`, if a line has `bw` bytes. -/
def pixelBit (bw : Nat) (mem : List SaneByte) (x y : Nat) : Bool :=
  bitIn mem (y * bw + x / 8) (7 - x % 8)

/-- Pixel `x` of line `y`: its bytes, or its bit. -/
def Params.pixel (p : Params) (buffer : List SaneByte) (x y : Nat) : List Nat :=
  if p.Lineart then [(pixelBit p.bytesPerLine buffer x y).toNat]
  else
    (List.range p.samples).map fun k =>
      (buffer.getD (y * p.bytesPerLine + x * p.samples + k) 0).toNat

/-- Pixels whose bytes are the same. -/
theorem pixel_of_samples {o p : Params} {out buffer : List SaneByte} {x y x' y' : Nat}
    (ho : ¬ o.Lineart) (hp : ¬ p.Lineart) (hs : o.samples = p.samples)
    (h : ∀ k < o.samples, out[y * o.bytesPerLine + x * o.samples + k]?
      = buffer[y' * p.bytesPerLine + x' * p.samples + k]?) :
    o.pixel out x y = p.pixel buffer x' y' := by
  rw [Params.pixel, if_neg ho, Params.pixel, if_neg hp, ← hs]
  apply List.map_congr_left
  intro k hk
  rw [List.getD_eq_getElem?_getD, h k (List.mem_range.mp hk), ← hs,
    ← List.getD_eq_getElem?_getD]

/-- Lineart pixels that agree have the same bit. -/
theorem bit_of_singleton {a b : Bool} (h : [a.toNat] = [b.toNat]) : a = b := by
  cases a <;> cases b <;> first | rfl | exact nomatch h

/-- An image: `bytes_per_line` bytes for each line, enough for its pixels. -/
structure Image where
  params : Params
  buffer : List SaneByte
  supported : params.Sampled ∨ params.Lineart
  row_le : params.rowSize ≤ params.bytesPerLine
  length_buffer : buffer.length = params.bytesPerLine * params.lines

/-! ### Addresses -/

theorem rowAddress_lt {bw h y c : Nat} (hy : y < h) (hc : c < bw) : y * bw + c < bw * h := by
  have hnext : (y + 1) * bw ≤ h * bw := Nat.mul_le_mul_right bw hy
  rw [Nat.succ_mul, Nat.mul_comm h bw] at hnext
  omega

/-- Two addresses of lines agree only if lines and columns do. -/
theorem rowAddress_inj {bw y y' c c' : Nat} (hc : c < bw) (hc' : c' < bw)
    (h : y * bw + c = y' * bw + c') : y = y' ∧ c = c' := by
  have hbw : 0 < bw := Nat.zero_lt_of_lt hc
  have hy : y = y' := by
    have hdiv := congrArg (· / bw) h
    simpa [Nat.mul_comm _ bw, Nat.mul_add_div hbw, Nat.div_eq_of_lt hc, Nat.div_eq_of_lt hc']
      using hdiv
  subst hy
  exact ⟨rfl, by omega⟩

/-- A pixel's byte lies in its line. -/
theorem sampleColumn_lt {w d bw x k : Nat} (hrow : w * d ≤ bw) (hx : x < w) (hk : k < d) :
    x * d + k < bw := by
  have := rowAddress_lt hx hk
  rw [Nat.mul_comm d w] at this
  omega

theorem bitColumn_lt {w bw x : Nat} (hrow : (w + 7) / 8 ≤ bw) (hx : x < w) : x / 8 < bw := by
  omega

/-- Distinct pixels have distinct bits. -/
theorem pixelBit_inj {bw x y x' y' : Nat} (hx : x / 8 < bw) (hx' : x' / 8 < bw)
    (h : y * bw + x / 8 = y' * bw + x' / 8 ∧ 7 - x % 8 = 7 - x' % 8) : x = x' ∧ y = y' := by
  obtain ⟨hy, hbyte⟩ := rowAddress_inj hx hx' h.1
  exact ⟨by omega, hy⟩

namespace Image

variable {img : Image} {x y k : Nat}

theorem sampleAddress_lt (h : img.params.Sampled) (hx : x < img.params.pixelsPerLine)
    (hy : y < img.params.lines) (hk : k < img.params.samples) :
    y * img.params.bytesPerLine + x * img.params.samples + k < img.buffer.length := by
  have hrow := img.row_le
  rw [h.rowSize_eq] at hrow
  rw [img.length_buffer, Nat.add_assoc]
  exact rowAddress_lt hy (sampleColumn_lt hrow hx hk)

theorem bitAddress_lt (h : img.params.Lineart) (hx : x < img.params.pixelsPerLine)
    (hy : y < img.params.lines) :
    y * img.params.bytesPerLine + x / 8 < img.buffer.length := by
  have hrow := img.row_le
  rw [h.rowSize_eq] at hrow
  rw [img.length_buffer]
  exact rowAddress_lt hy (bitColumn_lt hrow hx)

end Image

end SaneBackends.Magic
