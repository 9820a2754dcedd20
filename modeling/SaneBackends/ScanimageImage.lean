import SaneBackends.ScanimageBuffer
import SaneBackends.FaultState

/-!
# What `scanimage` makes of a buffered scan

The buffer of a scan of unknown height always holds the bytes received so far, and it has
room for the next one.  The buffer of a three-pass scan has room for one of its frames.
-/

namespace SaneBackends.Scanimage

open BytePairs FaultState

variable {w n : Nat} {bs : List SaneByte}

/-! ### The cursor -/

/-- The lines allocated when `n` bytes have been stored in lines of `w` bytes. -/
def strips (w n : Nat) : Nat := 256 * (n / w / 256 + 1)

/-- The block for `n` bytes has a size an `int` can hold. -/
def Fits (w n : Nat) : Prop := strips w n * w < 2 ^ 31

instance : Decidable (Fits w n) := inferInstanceAs (Decidable (_ < _))

theorem div_lt_strips (w n : Nat) : n / w < strips w n := by
  rw [strips]
  omega

theorem lt_strips_mul (hw : 0 < w) (n : Nat) : n < strips w n * w := by
  have hq := Nat.mul_le_mul_right w (Nat.succ_le_of_lt (div_lt_strips w n))
  have hr := Nat.mod_lt n hw
  have hn := Nat.div_add_mod n w
  rw [Nat.succ_mul, Nat.mul_comm (n / w) w] at hq
  omega

theorem strips_mono {m : Nat} (h : m ≤ n) : strips w m ≤ strips w n := by
  have hdiv : m / w / 256 ≤ n / w / 256 := Nat.div_le_div_right (Nat.div_le_div_right h)
  rw [strips, strips]
  omega

theorem Fits.mono {m : Nat} (h : Fits w n) (hle : m ≤ n) : Fits w m :=
  Nat.lt_of_le_of_lt (Nat.mul_le_mul_right w (strips_mono hle)) h

/-- The next byte is in the same line. -/
theorem same_line (h : n % w + 1 < w) : (n + 1) / w = n / w ∧ (n + 1) % w = n % w + 1 := by
  have hn := Nat.div_add_mod n w
  have hsplit : n + 1 = n % w + 1 + w * (n / w) := by omega
  have hw : 0 < w := by omega
  constructor
  · rw [hsplit, Nat.add_mul_div_left _ _ hw, Nat.div_eq_of_lt h, Nat.zero_add]
  · rw [hsplit, Nat.add_mul_mod_self_left, Nat.mod_eq_of_lt h]

/-- The next byte begins a line. -/
theorem next_line (h : n % w + 1 = w) : (n + 1) / w = n / w + 1 ∧ (n + 1) % w = 0 ∧
    n + 1 = (n / w + 1) * w := by
  have hn := Nat.div_add_mod n w
  have hw : 0 < w := by omega
  have hsplit : n + 1 = w * (n / w + 1) := by
    rw [Nat.mul_add_one]
    omega
  refine ⟨?_, ?_, by rw [Nat.mul_comm]; exact hsplit⟩
  · rw [hsplit, Nat.mul_div_cancel_left _ hw]
  · rw [hsplit, Nat.mul_mod_right]

/-! ### A single frame of unknown height -/

/-- The buffer when the bytes `bs` have been stored. -/
def grown (w : Nat) (bs : List SaneByte) : Image where
  data := some (bs ++ List.replicate (strips w bs.length * w - bs.length) 0)
  width := w
  height := strips w bs.length
  x := (bs.length % w : Nat)
  y := (bs.length / w : Nat)

theorem mulInt_natCast (a b : Nat) : mulInt a b =
    if a * b < 2 ^ 31 then .ok ((a * b : Nat) : Int) else .error .overflow := by
  have hcast : (a : Int) * b = ((a * b : Nat) : Int) := (Int.natCast_mul a b).symm
  rw [mulInt, hcast]
  generalize a * b = c
  by_cases h : c < 2 ^ 31
  · rw [if_pos h, if_pos (by omega)]
  · rw [if_neg h, if_neg (by omega)]

/-- The size of the block, as the code computes it. -/
theorem mulInt_strips (w n : Nat) : mulInt (strips w n : Nat) w =
    if Fits w n then .ok ((strips w n * w : Nat) : Int) else .error .overflow := by
  rw [mulInt_natCast]
  by_cases h : Fits w n
  · rw [if_pos h, if_pos (show strips w n * w < 2 ^ 31 from h)]
  · rw [if_neg h, if_neg (show ¬ strips w n * w < 2 ^ 31 from h)]

theorem Image.grow_ok {data : List SaneByte} {width height x y old new : Int}
    (hold : mulInt height width = .ok old)
    (hnew : mulInt (height + STRIP_HEIGHT) width = .ok new) :
    Image.grow ⟨some data, width, height, x, y⟩ =
      .ok ⟨some (data ++ List.replicate (new - old).toNat 0), width, height + STRIP_HEIGHT, x, y⟩ := by
  simp only [Image.grow, hold, hnew, bind, Except.bind, Option.getD_some]
  rfl

theorem Image.grow_error {data : List SaneByte} {width height x y old : Int} {e : ImageFault}
    (hold : mulInt height width = .ok old)
    (hnew : mulInt (height + STRIP_HEIGHT) width = .error e) :
    Image.grow ⟨some data, width, height, x, y⟩ = .error e := by
  simp only [Image.grow, hold, hnew, bind, Except.bind]

theorem store_grown (hw : 0 < w) (bs : List SaneByte) (b : SaneByte) :
    (grown w bs).store bs.length b = .ok { grown w bs with
      data := some (bs ++ b ::
        List.replicate (strips w bs.length * w - (bs.length + 1)) 0) } := by
  have hlt := lt_strips_mul hw bs.length
  obtain ⟨k, hk⟩ : ∃ k, strips w bs.length * w - bs.length = k + 1 :=
    ⟨_, (Nat.succ_pred_eq_of_pos (Nat.sub_pos_of_lt hlt)).symm⟩
  have hk' : strips w bs.length * w - (bs.length + 1) = k := by omega
  simp only [Image.store, grown]
  rw [hk, hk', if_pos]
  · rw [List.set_append_right _ _ (Nat.le_refl _), Nat.sub_self, List.replicate_succ,
      List.set_cons_zero]
  · rw [List.length_append, List.length_replicate]
    omega

theorem advance_grown (hw : 0 < w) (bs : List SaneByte) (b : SaneByte) (hfits : Fits w bs.length) :
    advance { grown w bs with
        data := some (bs ++ b :: List.replicate (strips w bs.length * w - (bs.length + 1)) 0) } =
      if Fits w (bs.length + 1) then .ok (grown w (bs ++ [b])) else .error .overflow := by
  have hlen : (bs ++ [b]).length = bs.length + 1 := List.length_append
  have happend : ∀ k : Nat, bs ++ b :: List.replicate k (0 : SaneByte) =
      bs ++ [b] ++ List.replicate k 0 := fun k => List.append_cons ..
  by_cases hrow : bs.length % w + 1 < w
  · -- the cursor stays in its line
    obtain ⟨hdiv, hmod⟩ := same_line hrow
    have hstrips : strips w (bs.length + 1) = strips w bs.length := by rw [strips, hdiv, strips]
    have hfits' : Fits w (bs.length + 1) := by rwa [Fits, hstrips]
    have hx : ¬ ((bs.length % w : Nat) : Int) + 1 ≥ w := by omega
    simp only [advance, grown, if_neg hx, if_pos hfits', hlen, hstrips, hdiv, hmod, happend]
    rfl
  · have hrow' : bs.length % w + 1 = w := by
      have := Nat.mod_lt bs.length hw
      omega
    obtain ⟨hdiv, hmod, hnext⟩ := next_line hrow'
    have hx : ((bs.length % w : Nat) : Int) + 1 ≥ w := by omega
    have hq := div_lt_strips w bs.length
    by_cases hroom : bs.length / w + 1 < strips w bs.length
    · -- the next line is allocated already
      have hstrips : strips w (bs.length + 1) = strips w bs.length := by
        rw [strips] at hroom
        rw [strips, hdiv, strips]
        omega
      have hfits' : Fits w (bs.length + 1) := by rwa [Fits, hstrips]
      have hy : ¬ ((bs.length / w : Nat) : Int) + 1 ≥ (strips w bs.length : Nat) := by omega
      simp only [advance, grown, if_pos hx, hy, reduceCtorEq, or_self, if_false, if_pos hfits',
        hlen, hstrips, hdiv, hmod, happend]
      rfl
    · -- the last line of the block is full
      have hlast : bs.length / w + 1 = strips w bs.length := by omega
      have hstrips : strips w (bs.length + 1) = strips w bs.length + 256 := by
        rw [strips] at hlast
        rw [strips, hdiv, strips]
        omega
      have hfull : strips w bs.length * w = bs.length + 1 := by rw [hnext, hlast]
      have hy : ((bs.length / w : Nat) : Int) + 1 ≥ (strips w bs.length : Nat) := by omega
      have hheight : ((strips w bs.length : Nat) : Int) + STRIP_HEIGHT =
          (strips w (bs.length + 1) : Nat) := by
        rw [hstrips, STRIP_HEIGHT]
        omega
      have hempty : strips w bs.length * w - (bs.length + 1) = 0 := by omega
      have hfresh : (((strips w (bs.length + 1) * w : Nat) : Int) -
          ((strips w bs.length * w : Nat) : Int)).toNat =
          strips w (bs.length + 1) * w - (bs.length + 1) := by
        rw [hfull]
        omega
      simp only [advance, grown, if_pos hx, hy, true_or, if_true]
      have hold := mulInt_strips w bs.length
      rw [if_pos hfits] at hold
      have hnew := mulInt_strips w (bs.length + 1)
      rw [← hheight] at hnew
      by_cases hfits' : Fits w (bs.length + 1)
      · rw [if_pos hfits'] at hnew
        rw [if_pos hfits', Image.grow_ok hold hnew, hfresh]
        simp only [hheight, hlen, hdiv, hmod, hempty, List.replicate_zero]
        rfl
      · rw [if_neg hfits'] at hnew
        rw [if_neg hfits', Image.grow_error hold hnew]

theorem storeBytes_grown (hw : 0 < w) (bs bs' : List SaneByte) (hfits : Fits w bs.length) :
    storeBytes 1 bs.length bs' (grown w bs) =
      if Fits w (bs.length + bs'.length) then .ok (grown w (bs ++ bs')) else .error .overflow := by
  induction bs' generalizing bs with
  | nil =>
    rw [List.append_nil, List.length_nil, Nat.add_zero, if_pos hfits]
    rfl
  | cons b bs' ih =>
    have hlen : (bs ++ [b]).length = bs.length + 1 := List.length_append
    have hcount : bs.length + (b :: bs').length = (bs ++ [b]).length + bs'.length := by
      rw [hlen, List.length_cons]
      omega
    have happend : bs ++ b :: bs' = bs ++ [b] ++ bs' := List.append_cons ..
    rw [storeBytes, store_grown hw, hcount, happend]
    simp only [bind, Except.bind, advance_grown hw bs b hfits]
    by_cases hnext : Fits w (bs.length + 1)
    · rw [if_pos hnext, ← hlen]
      exact ih _ (hlen ▸ hnext)
    · have hlater : ¬ Fits w ((bs ++ [b]).length + bs'.length) :=
        fun h => hnext (h.mono (by rw [hlen]; exact Nat.le_add_right ..))
      rw [if_neg hnext, if_neg hlater]

/-- The frame is stored as it has been read, however it was cut. -/
theorem readFrame_grown (hw : 0 < w) (reads : List (List SaneByte)) (bs : List SaneByte)
    (hfits : Fits w bs.length) :
    readFrame 1 bs.length reads (grown w bs) =
      if Fits w (bs.length + reads.flatten.length) then .ok (grown w (bs ++ reads.flatten))
      else .error .overflow := by
  induction reads generalizing bs with
  | nil =>
    rw [List.flatten_nil, List.append_nil, List.length_nil, Nat.add_zero, if_pos hfits]
    rfl
  | cons buffer reads ih =>
    have hcount : bs.length + (buffer :: reads).flatten.length =
        (bs ++ buffer).length + reads.flatten.length := by
      rw [List.flatten_cons, List.length_append, List.length_append]
      omega
    rw [readFrame, storeBytes_grown hw bs buffer hfits, hcount, List.flatten_cons,
      ← List.append_assoc]
    by_cases hnext : Fits w (bs.length + buffer.length)
    · rw [if_pos hnext]
      rw [← List.length_append] at hnext
      have hrest := ih (bs ++ buffer) hnext
      rw [List.length_append] at hrest
      rw [List.length_append, ← hrest, Nat.one_mul]
      rfl
    · have hlater : ¬ Fits w ((bs ++ buffer).length + reads.flatten.length) :=
        fun h => hnext (h.mono (by rw [List.length_append]; exact Nat.le_add_right ..))
      rw [if_neg hnext, if_neg hlater]
      rfl

/-- The first call of `advance` allocates the block. -/
theorem startImage_eq (parm : Parameters) : startImage parm = Image.grow ⟨none, parm.bytesPerLine,
    if parm.lines ≥ 0 then parm.lines - STRIP_HEIGHT + 1 else 0, 0, 0⟩ := by
  have hx : parm.bytesPerLine - 1 + 1 ≥ parm.bytesPerLine := by omega
  simp only [startImage, advance, if_pos hx, or_true, if_true]
  rfl

theorem Image.grow_none {width height x y : Int} : Image.grow ⟨none, width, height, x, y⟩ =
    match mulInt (height + STRIP_HEIGHT) width with
    | .ok new => .ok ⟨some (List.replicate new.toNat 0), width, height + STRIP_HEIGHT, x, y⟩
    | .error e => .error e := by
  simp only [Image.grow, bind, Except.bind, Option.getD_none]
  cases mulInt (height + STRIP_HEIGHT) width with
  | ok new => simp only [Int.sub_zero, List.nil_append]; rfl
  | error e => rfl

theorem startImage_unknown {parm : Parameters} (hbytes : parm.bytesPerLine = w)
    (hlines : parm.lines < 0) :
    startImage parm = if Fits w 0 then .ok (grown w []) else .error .overflow := by
  have hstrips : strips w 0 = 256 := by
    rw [strips, Nat.zero_div]
  have hsize := mulInt_strips w 0
  rw [hstrips] at hsize
  have hlines' : ¬ parm.lines ≥ 0 := by omega
  have hheight : (0 : Int) + STRIP_HEIGHT = (256 : Nat) := rfl
  rw [startImage_eq, if_neg hlines', Image.grow_none, hbytes, hheight, hsize]
  by_cases hfits : Fits w 0
  · simp only [if_pos hfits, grown, hstrips, List.length_nil, Nat.zero_mod, Nat.zero_div,
      Nat.sub_zero, Int.toNat_natCast, List.nil_append]
    rfl
  · simp only [if_neg hfits]

/-- The order of the bytes in the file: PNM wants the high byte of a sample first. -/
def sampleOrder (tiff : Bool) (depth : Int) (bs : List SaneByte) : List SaneByte :=
  if !tiff ∧ depth = 16 then swapPairs bs else bs

/-- The bytes written are the first ones of the block, their order apart. -/
theorem writeImage_eq {tiff : Bool} {parm : Parameters} {data : List SaneByte} {width height x y : Int}
    {size : Nat} (hsize : mulInt y width = .ok (size : Int)) (hroom : size ≤ data.length)
    (heven : parm.depth = 16 → size % 2 = 0) :
    writeImage tiff parm ⟨some data, width, height, x, y⟩ = .ok ⟨tiff, parm.format,
      parm.pixelsPerLine, y, parm.depth, sampleOrder tiff parm.depth (data.take size)⟩ := by
  simp only [writeImage, hsize, bind, Except.bind, Int.toNat_natCast, Option.getD_some,
    sampleOrder]
  by_cases hswap : (!tiff) = true ∧ parm.depth = 16
  · have hhalf : 2 * ((size + 1) / 2) = size := by
      have := heven hswap.2
      omega
    have hloop := foldl_swapAt (Nat.le_trans (Nat.le_of_eq hhalf) hroom)
    rw [hhalf] at hloop
    have hlen : (swapPairs (data.take size)).length = size := by
      rw [length_swapPairs, List.length_take, Nat.min_eq_left hroom]
    simp only [if_pos hswap, hloop, List.length_append, hlen, Nat.le_add_right, if_true,
      List.take_append_of_le_length (Nat.le_of_eq hlen.symm),
      List.take_of_length_le (Nat.le_of_eq hlen)]
    rfl
  · simp only [if_neg hswap, if_pos hroom]
    rfl

/-- The whole lines are written, all of them. -/
theorem writeImage_grown (tiff : Bool) (parm : Parameters) (hw : 0 < w)
    (hfits : Fits w bs.length) (heven : parm.depth = 16 → w % 2 = 0) :
    writeImage tiff parm (grown w bs) = .ok ⟨tiff, parm.format, parm.pixelsPerLine,
      (bs.length / w : Nat), parm.depth,
      sampleOrder tiff parm.depth (bs.take (bs.length / w * w))⟩ := by
  have hle : bs.length / w * w ≤ bs.length := Nat.div_mul_le_self ..
  have hlt := lt_strips_mul hw bs.length
  have hsmall : bs.length / w * w < 2 ^ 31 := Nat.lt_of_le_of_lt hle (Nat.lt_trans hlt hfits)
  have hsize := mulInt_natCast (bs.length / w) w
  rw [if_pos hsmall] at hsize
  have hroom : bs.length / w * w ≤
      (bs ++ List.replicate (strips w bs.length * w - bs.length) (0 : SaneByte)).length := by
    rw [List.length_append]
    exact Nat.le_trans hle (Nat.le_add_right ..)
  have heven' : parm.depth = 16 → bs.length / w * w % 2 = 0 := by
    intro h
    rw [Nat.mul_mod, heven h, Nat.mul_zero, Nat.zero_mod]
  rw [grown, writeImage_eq hsize hroom heven', List.take_append_of_le_length hle]

/-! ### Three frames -/

/-- The buffer of a three-pass scan when the cursor has passed `k` bytes of a frame: its
    block never grows. -/
structure Held (w lines k : Nat) (image : Image) : Prop where
  width : image.width = w
  height : image.height = (lines + 1 : Nat)
  block : ∃ data, image.data = some data ∧ data.length = (lines + 1) * w
  x : image.x = (k % w : Nat)
  y : image.y = (k / w : Nat)

variable {lines k : Nat} {image : Image}

theorem Held.advance (h : Held w lines k image) (hk : k < lines * w) :
    ∃ image', Scanimage.advance image = .ok image' ∧ Held w lines (k + 1) image' := by
  have hw : 0 < w := Nat.pos_of_ne_zero fun h0 => by rw [h0, Nat.mul_zero] at hk; omega
  have hline : k / w < lines := Nat.div_lt_of_lt_mul (Nat.mul_comm lines w ▸ hk)
  obtain ⟨data, hdata, hlen⟩ := h.block
  by_cases hrow : k % w + 1 < w
  · obtain ⟨hdiv, hmod⟩ := same_line hrow
    have hx : ¬ image.x + 1 ≥ image.width := by
      rw [h.x, h.width]
      omega
    refine ⟨{ image with x := image.x + 1 }, by rw [Scanimage.advance, if_neg hx],
      h.width, h.height, h.block, ?_, ?_⟩
    · rw [h.x, hmod]
      rfl
    · rw [hdiv]
      exact h.y
  · have hrow' : k % w + 1 = w := by
      have := Nat.mod_lt k hw
      omega
    obtain ⟨hdiv, hmod, -⟩ := next_line hrow'
    have hx : image.x + 1 ≥ image.width := by
      rw [h.x, h.width]
      omega
    have hy : ¬ (image.y + 1 ≥ image.height ∨ image.data = none) := by
      rw [h.y, h.height, hdata]
      rintro (hle | hnone)
      · omega
      · exact nomatch hnone
    refine ⟨{ image with x := 0, y := image.y + 1 }, ?_, h.width, h.height, h.block, ?_, ?_⟩
    · simp only [Scanimage.advance, if_pos hx, if_neg hy]
    · rw [hmod]
      rfl
    · rw [hdiv, h.y]
      rfl

/-- A store leaves the cursor and the size of the block, and it has to hit the block. -/
theorem Held.store {i : Nat} {b : SaneByte} {image' : Image} (h : Held w lines k image)
    (hstore : image.store i b = .ok image') : Held w lines k image' ∧ i < (lines + 1) * w := by
  obtain ⟨data, hdata, hlen⟩ := h.block
  rw [Image.store, hdata] at hstore
  dsimp only at hstore
  split_ifs at hstore with hi
  cases hstore
  exact ⟨⟨h.width, h.height, ⟨_, rfl, by rw [List.length_set, hlen]⟩, h.x, h.y⟩, hlen ▸ hi⟩

theorem Held.storeBytes {bs : List SaneByte} {i : Nat} {image' : Image} (h : Held w lines k image)
    (hk : k + bs.length ≤ lines * w) (hrun : Scanimage.storeBytes 3 i bs image = .ok image') :
    Held w lines (k + bs.length) image' ∧ ∀ j < bs.length, i + 3 * j < (lines + 1) * w := by
  induction bs generalizing i k image with
  | nil =>
    cases hrun
    exact ⟨h, fun j hj => absurd hj (Nat.not_lt_zero j)⟩
  | cons b bs ih =>
    rw [List.length_cons] at hk ⊢
    rw [Scanimage.storeBytes] at hrun
    cases hstore : image.store i b with
    | error e =>
      rw [hstore] at hrun
      exact nomatch hrun
    | ok image₁ =>
      obtain ⟨h₁, hi⟩ := h.store hstore
      obtain ⟨image₂, hadvance, h₂⟩ := h₁.advance (by omega)
      rw [hstore] at hrun
      simp only [bind, Except.bind, hadvance] at hrun
      obtain ⟨h₃, hall⟩ := ih h₂ (by omega) hrun
      refine ⟨by rwa [Nat.add_assoc, Nat.add_comm 1] at h₃, fun j hj => ?_⟩
      cases j with
      | zero => simpa using hi
      | succ j =>
        have := hall j (by omega)
        omega

theorem Held.readFrame {reads : List (List SaneByte)} {i : Nat} {image' : Image}
    (h : Held w lines k image) (hk : k + reads.flatten.length ≤ lines * w)
    (hrun : Scanimage.readFrame 3 i reads image = .ok image') :
    Held w lines (k + reads.flatten.length) image' ∧
      ∀ j < reads.flatten.length, i + 3 * j < (lines + 1) * w := by
  induction reads generalizing i k image with
  | nil =>
    cases hrun
    exact ⟨h, fun j hj => absurd hj (Nat.not_lt_zero j)⟩
  | cons buffer reads ih =>
    rw [List.flatten_cons, List.length_append] at hk ⊢
    rw [Scanimage.readFrame] at hrun
    cases hstore : Scanimage.storeBytes 3 i buffer image with
    | error e =>
      rw [hstore] at hrun
      exact nomatch hrun
    | ok image₁ =>
      obtain ⟨h₁, hfirst⟩ := h.storeBytes (by omega) hstore
      rw [hstore] at hrun
      obtain ⟨h₂, hall⟩ := ih h₁ (by omega) hrun
      refine ⟨by rwa [Nat.add_assoc] at h₂, fun j hj => ?_⟩
      by_cases hjb : j < buffer.length
      · exact hfirst j hjb
      · have := hall (j - buffer.length) (by omega)
        omega

/-- The next frame begins at the first line again. -/
theorem Held.rewind (h : Held w lines k image) :
    Held w lines 0 { image with x := 0, y := 0 } :=
  ⟨h.width, h.height, h.block, by rw [Nat.zero_mod]; rfl, by rw [Nat.zero_div]; rfl⟩

theorem startImage_known {parm : Parameters} (hbytes : parm.bytesPerLine = w)
    (hlines : parm.lines = lines) {image : Image} (hstart : startImage parm = .ok image) :
    Held w lines 0 image := by
  have hlines' : parm.lines ≥ 0 := by omega
  have hheight : (lines : Int) - STRIP_HEIGHT + 1 + STRIP_HEIGHT = (lines + 1 : Nat) := by omega
  rw [startImage_eq, if_pos hlines', Image.grow_none, hbytes, hlines, hheight,
    mulInt_natCast] at hstart
  by_cases hfits : (lines + 1) * w < 2 ^ 31
  · rw [if_pos hfits] at hstart
    cases hstart
    refine ⟨rfl, rfl, ⟨_, rfl, ?_⟩, by rw [Nat.zero_mod]; rfl, by rw [Nat.zero_div]; rfl⟩
    rw [List.length_replicate, Int.toNat_natCast]
  · rw [if_neg hfits] at hstart
    exact nomatch hstart

/-! ### Buffered scans -/

/-- A single gray or colour frame whose height is not known. -/
structure SingleFrame where
  parm : Parameters
  reads : List (List SaneByte)
  format : parm.format = .gray ∨ parm.format = .rgb
  lastFrame : parm.lastFrame = true
  lines : parm.lines = -1
  bytesPerLine : 1 ≤ parm.bytesPerLine ∧ parm.bytesPerLine < 2 ^ 31
  depth : parm.depthOk = true
  /-- two bytes for each sample of 16 bits -/
  samples : parm.depth = 16 → parm.bytesPerLine.toNat % 2 = 0

/-- Three frames, one for each colour, of `bytesPerLine * lines` bytes each. -/
structure ThreePass where
  parm : Parameters
  order : SaneFrame × SaneFrame × SaneFrame
  reads : SaneFrame → List (List SaneByte)
  colours : [order.1, order.2.1, order.2.2].Perm [.red, .green, .blue]
  lines : 0 ≤ parm.lines ∧ parm.lines < 2 ^ 31
  bytesPerLine : 1 ≤ parm.bytesPerLine ∧ parm.bytesPerLine < 2 ^ 31
  depth : parm.depth = 8
  length : ∀ c, ((reads c).flatten.length : Int) = parm.bytesPerLine * parm.lines

inductive BufferedScan where
  | single (s : SingleFrame)
  | threePass (s : ThreePass)

def SingleFrame.frames (s : SingleFrame) : List FrameScan :=
  [⟨.good, .ok s.parm, s.reads, .eof⟩]

def ThreePass.frame (s : ThreePass) (c : SaneFrame) (lastFrame : Bool) : FrameScan :=
  ⟨.good, .ok { s.parm with format := c, lastFrame := lastFrame }, s.reads c, .eof⟩

def ThreePass.frames (s : ThreePass) : List FrameScan :=
  [s.frame s.order.1 false, s.frame s.order.2.1 false, s.frame s.order.2.2 true]

/-- The pixels of three frames, byte by byte. -/
def interleave (red green blue : List SaneByte) : List SaneByte :=
  (red.zip (green.zip blue)).flatMap fun (r, g, b) => [r, g, b]

/-- What has been written is what the claim says: as many whole lines as the header
    announces, with the bytes of the frames. -/
def BufferedScan.Correct : BufferedScan → Bool → Written → Prop
  | .single s, tiff, out =>
      out.height = (s.reads.flatten.length / s.parm.bytesPerLine.toNat : Nat) ∧
        out.data = sampleOrder tiff s.parm.depth
          (s.reads.flatten.take (out.height * s.parm.bytesPerLine).toNat) ∧
        (out.data.length : Int) = out.height * s.parm.bytesPerLine
  | .threePass s, _, out =>
      out.height = s.parm.lines ∧
        out.data = interleave (s.reads .red).flatten (s.reads .green).flatten
          (s.reads .blue).flatten ∧
        (out.data.length : Int) = out.height * (3 * s.parm.bytesPerLine)

def BufferedScan.frames : BufferedScan → List FrameScan
  | .single s => s.frames
  | .threePass s => s.frames

/-- Every store hits the block, and the file holds the image. -/
def BufferedScan.Meets (s : BufferedScan) (tiff : Bool) : Prop :=
  ∃ out, scanBuffered tiff s.frames = .ok (some (.eof, some out)) ∧ s.Correct tiff out

/-- A single frame whose block stays below 2 GiB, or three frames without a line. -/
def BufferedScan.Holds : BufferedScan → Prop
  | .single s => Fits s.parm.bytesPerLine.toNat s.reads.flatten.length
  | .threePass s => s.parm.lines = 0

/-- One turn of the loop over the frames. -/
theorem scanIt_cons {tiff first : Bool} {parm : Parameters} {reads : List (List SaneByte)}
    {fs : List FrameScan} {image : Image} :
    scanIt tiff first (⟨.good, .ok parm, reads, .eof⟩ :: fs) image =
      (frameImage first parm image >>= fun image =>
        readFrame parm.format.stride parm.format.offset reads image >>= fun image =>
          if parm.lastFrame then writeImage tiff parm image >>= fun out =>
            pure (some (.eof, some out))
          else scanIt tiff false fs image) := by
  simp only [scanIt, ne_eq, not_true_eq_false, and_false, if_false]

theorem single_meets_iff (s : SingleFrame) (tiff : Bool) :
    (BufferedScan.single s).Meets tiff ↔ (BufferedScan.single s).Holds := by
  obtain ⟨w, hw⟩ := Int.eq_ofNat_of_zero_le (Int.le_trans (by decide) s.bytesPerLine.1)
  have hpos : 0 < w := by
    have := s.bytesPerLine.1
    omega
  have hstride : s.parm.format.stride = 1 := by
    rcases s.format with h | h <;> rw [h] <;> rfl
  have hoffset : s.parm.format.offset = 0 := by
    rcases s.format with h | h <;> rw [h] <;> rfl
  have hlines : s.parm.lines < 0 := by
    rw [s.lines]
    decide
  have hrun : scanBuffered tiff s.frames = if Fits w s.reads.flatten.length then
      .ok (some (.eof, some ⟨tiff, s.parm.format, s.parm.pixelsPerLine,
        (s.reads.flatten.length / w : Nat), s.parm.depth, sampleOrder tiff s.parm.depth
          (s.reads.flatten.take (s.reads.flatten.length / w * w))⟩))
      else .error .overflow := by
    have hframe : frameImage true s.parm .zero = startImage s.parm := by
      simp only [frameImage, if_true, s.depth]
    rw [scanBuffered, SingleFrame.frames, scanIt_cons, hframe, startImage_unknown hw hlines,
      hstride, hoffset]
    by_cases hstart : Fits w 0
    · have hread := readFrame_grown hpos s.reads [] hstart
      rw [List.length_nil, Nat.zero_add, List.nil_append] at hread
      rw [if_pos hstart]
      simp only [bind, Except.bind, hread]
      by_cases hfits : Fits w s.reads.flatten.length
      · have hsamples : s.parm.depth = 16 → w % 2 = 0 := by
          intro h
          have := s.samples h
          rwa [hw, Int.toNat_natCast] at this
        simp only [if_pos hfits, s.lastFrame, if_true, writeImage_grown tiff s.parm hpos hfits
          hsamples]
        rfl
      · simp only [if_neg hfits]
    · have hfits : ¬ Fits w s.reads.flatten.length := fun h => hstart (h.mono (Nat.zero_le _))
      rw [if_neg hstart, if_neg hfits]
      rfl
  have hwNat : s.parm.bytesPerLine.toNat = w := by rw [hw, Int.toNat_natCast]
  simp only [BufferedScan.Meets, BufferedScan.Holds, BufferedScan.frames, hrun, hwNat]
  constructor
  · rintro ⟨out, hout, -⟩
    by_contra hfits
    rw [if_neg hfits] at hout
    exact nomatch hout
  · intro hfits
    refine ⟨_, if_pos hfits, ?_⟩
    have hle : s.reads.flatten.length / w * w ≤ s.reads.flatten.length := Nat.div_mul_le_self ..
    have hsize : (((s.reads.flatten.length / w : Nat) : Int) * s.parm.bytesPerLine) =
        ((s.reads.flatten.length / w * w : Nat) : Int) := by
      rw [hw]
      exact (Int.natCast_mul _ _).symm
    refine ⟨by rw [hwNat], ?_, ?_⟩
    · simp only [hsize, Int.toNat_natCast]
    · have hlen : ∀ bs : List SaneByte, (sampleOrder tiff s.parm.depth bs).length = bs.length := by
        intro bs
        rw [sampleOrder]
        split
        · exact length_swapPairs bs
        · rfl
      rw [hlen, List.length_take, Nat.min_eq_left hle]
      exact hsize.symm

/-- What a frame of a three-pass scan needs: room for three times its bytes, in a block for
    one more line than it has. -/
theorem ThreePass.frame_run {s : ThreePass} {c : SaneFrame} {lastFrame tiff first : Bool}
    {fs : List FrameScan} {image : Image} {r : Option (SaneStatus × Option Written)}
    (hbytes : s.parm.bytesPerLine = w) (hlines : s.parm.lines = lines)
    (hc : c.colour ≠ none) (himage : first = true ∨ ∃ k, Held w lines k image)
    (hrun : scanIt tiff first (s.frame c lastFrame :: fs) image = .ok r) :
    (∀ j < w * lines, c.offset + 3 * j < (lines + 1) * w) ∧ ∃ image' k, Held w lines k image' ∧
      (lastFrame = false → scanIt tiff false fs image' = .ok r) := by
  have hlength : (s.reads c).flatten.length = w * lines := by
    have := s.length c
    rw [hbytes, hlines, ← Int.natCast_mul] at this
    exact_mod_cast this
  have hstride : c.stride = 3 := if_neg hc
  rw [ThreePass.frame, scanIt_cons] at hrun
  obtain ⟨image₀, hframe, hrun⟩ := bind_eq_ok.mp hrun
  obtain ⟨image₁, hread, hrun⟩ := bind_eq_ok.mp hrun
  have hheld : Held w lines 0 image₀ := by
    cases first with
    | true =>
      simp only [frameImage, if_true] at hframe
      split_ifs at hframe
      exact startImage_known hbytes hlines hframe
    | false =>
      obtain ⟨k, hk⟩ := himage.resolve_left nofun
      simp only [frameImage, Bool.false_eq_true, if_false, if_neg hc] at hframe
      cases hframe
      exact hk.rewind
  rw [hstride] at hread
  have hle : 0 + (s.reads c).flatten.length ≤ lines * w := by
    rw [hlength, Nat.mul_comm w, Nat.zero_add]
  obtain ⟨hheld', hall⟩ := hheld.readFrame hle hread
  refine ⟨hlength ▸ hall, image₁, _, hheld', ?_⟩
  rintro rfl
  exact hrun

theorem readFrame_empty {stride i : Nat} {reads : List (List SaneByte)} {image : Image}
    (h : reads.flatten = []) : readFrame stride i reads image = .ok image := by
  induction reads generalizing i with
  | nil => rfl
  | cons buffer reads ih =>
    rw [List.flatten_cons, List.append_eq_nil_iff] at h
    rw [readFrame, h.1]
    exact ih h.2

/-- A frame without a byte leaves the buffer as it is. -/
theorem ThreePass.frame_empty {s : ThreePass} {c : SaneFrame} {lastFrame tiff first : Bool}
    {fs : List FrameScan} {image image' : Image} (hempty : (s.reads c).flatten = [])
    (hframe : frameImage first { s.parm with format := c, lastFrame := lastFrame } image =
      .ok image') :
    scanIt tiff first (s.frame c lastFrame :: fs) image =
      if lastFrame then
        writeImage tiff { s.parm with format := c, lastFrame := lastFrame } image' >>= fun out =>
          pure (some (.eof, some out))
      else scanIt tiff false fs image' := by
  rw [ThreePass.frame, scanIt_cons, hframe]
  simp only [bind, Except.bind, readFrame_empty hempty]

theorem threePass_meets_iff (s : ThreePass) (tiff : Bool) :
    (BufferedScan.threePass s).Meets tiff ↔ (BufferedScan.threePass s).Holds := by
  obtain ⟨w, hw⟩ := Int.eq_ofNat_of_zero_le (Int.le_trans (by decide) s.bytesPerLine.1)
  obtain ⟨lines, hl⟩ := Int.eq_ofNat_of_zero_le s.lines.1
  have hpos : 0 < w := by
    have := s.bytesPerLine.1
    omega
  have hcolour : ∀ c ∈ [s.order.1, s.order.2.1, s.order.2.2], c.colour ≠ none := by
    intro c hc
    have hmem := s.colours.mem_iff.mp hc
    simp only [List.mem_cons, List.not_mem_nil, or_false] at hmem
    rcases hmem with rfl | rfl | rfl <;> nofun
  have hfirst := hcolour s.order.1 List.mem_cons_self
  have hsecond := hcolour s.order.2.1 (List.mem_cons_of_mem _ List.mem_cons_self)
  have hthird := hcolour s.order.2.2
    (List.mem_cons_of_mem _ (List.mem_cons_of_mem _ List.mem_cons_self))
  constructor
  · rintro ⟨out, hout, -⟩
    rw [BufferedScan.frames, scanBuffered, ThreePass.frames] at hout
    obtain ⟨hall₁, image₁, k₁, hheld₁, hrest₁⟩ :=
      ThreePass.frame_run hw hl hfirst (.inl rfl) hout
    obtain ⟨hall₂, image₂, k₂, hheld₂, hrest₂⟩ :=
      ThreePass.frame_run hw hl hsecond (.inr ⟨k₁, hheld₁⟩) (hrest₁ rfl)
    obtain ⟨hall₃, -⟩ := ThreePass.frame_run hw hl hthird (.inr ⟨k₂, hheld₂⟩) (hrest₂ rfl)
    -- the last byte of the blue frame is the last one of the image
    have hblue : ∀ j < w * lines, 2 + 3 * j < (lines + 1) * w := by
      have hmem := s.colours.mem_iff.mpr (by simp : SaneFrame.blue ∈ [.red, .green, .blue])
      simp only [List.mem_cons, List.not_mem_nil, or_false] at hmem
      rcases hmem with h | h | h
      · rwa [← h] at hall₁
      · rwa [← h] at hall₂
      · rwa [← h] at hall₃
    rw [BufferedScan.Holds, hl]
    by_contra hne
    have hlines : 0 < lines := by omega
    have hle : w * 1 ≤ w * lines := Nat.mul_le_mul_left w hlines
    have hlast := hblue (w * lines - 1) (by omega)
    rw [Nat.add_mul, Nat.one_mul, Nat.mul_comm lines w] at hlast
    omega
  · intro hzero
    have hlines : lines = 0 := by
      rw [BufferedScan.Holds, hl] at hzero
      exact_mod_cast hzero
    subst hlines
    have hempty : ∀ c, (s.reads c).flatten = [] := by
      intro c
      have hlen := s.length c
      rw [hl] at hlen
      have hnone : ((s.reads c).flatten.length : Int) = 0 := by
        rw [hlen]
        simp
      exact List.length_eq_zero_iff.mp (Int.natCast_eq_zero.mp hnone)
    have hsmall : (0 + 1) * w < 2 ^ 31 := by
      have := s.bytesPerLine.2
      omega
    have hstart : ∀ parm : Parameters, parm.bytesPerLine = w → parm.lines = 0 →
        startImage parm = .ok ⟨some (List.replicate w 0), w, 1, 0, 0⟩ := by
      intro parm hbytes hlines
      have hheight : (0 : Int) - STRIP_HEIGHT + 1 + STRIP_HEIGHT = ((0 + 1 : Nat) : Int) := by
        omega
      have hge : parm.lines ≥ 0 := by omega
      rw [startImage_eq, if_pos hge, Image.grow_none, hbytes, hlines, hheight, mulInt_natCast,
        if_pos hsmall]
      simp only [Int.toNat_natCast, Nat.zero_add, Nat.one_mul]
      rfl
    have hdepth : ({ s.parm with format := s.order.1, lastFrame := false } : Parameters).depthOk =
        true := by
      cases hc : s.order.1 with
      | gray => exact absurd (by rw [hc]; rfl) hfirst
      | rgb => exact absurd (by rw [hc]; rfl) hfirst
      | red => simp [Parameters.depthOk, s.depth]
      | green => simp [Parameters.depthOk, s.depth]
      | blue => simp [Parameters.depthOk, s.depth]
    have hframe₁ : frameImage true { s.parm with format := s.order.1, lastFrame := false } .zero =
        .ok ⟨some (List.replicate w 0), w, 1, 0, 0⟩ := by
      rw [frameImage, if_pos rfl, if_pos hdepth]
      exact hstart _ hw hl
    have hframe : ∀ c lastFrame, c.colour ≠ none →
        frameImage false { s.parm with format := c, lastFrame := lastFrame }
            ⟨some (List.replicate w 0), w, 1, 0, 0⟩ =
          .ok ⟨some (List.replicate w 0), w, 1, 0, 0⟩ := by
      intro c lastFrame hc
      simp only [frameImage, Bool.false_eq_true, if_false, if_neg hc]
    have hsize : mulInt 0 (w : Int) = .ok ((0 : Nat) : Int) := by
      rw [mulInt, Int.zero_mul]
      rfl
    refine ⟨⟨tiff, s.order.2.2, s.parm.pixelsPerLine, 0, s.parm.depth, []⟩, ?_, ?_⟩
    · rw [BufferedScan.frames, scanBuffered, ThreePass.frames,
        ThreePass.frame_empty (hempty _) hframe₁, if_neg Bool.false_ne_true,
        ThreePass.frame_empty (hempty _) (hframe _ _ hsecond), if_neg Bool.false_ne_true,
        ThreePass.frame_empty (hempty _) (hframe _ _ hthird), if_pos rfl,
        writeImage_eq hsize (Nat.zero_le _) (fun _ => rfl), List.take_zero, sampleOrder]
      split <;> rfl
    · refine ⟨hl.symm, ?_, ?_⟩
      · rw [hempty, hempty, hempty]
        rfl
      · rw [Int.zero_mul]
        rfl

/-- A buffered scan is written as the claim says exactly if it is a single frame whose
    block stays below 2 GiB; of the three-pass scans only those without a line are. -/
theorem scanimage_buffer (s : BufferedScan) (tiff : Bool) : s.Meets tiff ↔ s.Holds := by
  cases s with
  | single s => exact single_meets_iff s tiff
  | threePass s => exact threePass_meets_iff s tiff

/-- A gray frame of two pixels a line that ends inside of its third line. -/
def openFrame : SingleFrame where
  parm := ⟨.gray, true, 2, 2, -1, 8⟩
  reads := [[1, 2, 3], [4, 5]]
  format := .inl rfl
  lastFrame := rfl
  lines := rfl
  bytesPerLine := by decide
  depth := rfl
  samples h := absurd h (by decide)

/-- Two lines are written. -/
theorem scanimage_buffer_gray :
    ∃ out, scanBuffered false (BufferedScan.single openFrame).frames =
        .ok (some (.eof, some out)) ∧
      out.height = 2 ∧ out.data = [1, 2, 3, 4] ∧ (out.data.length : Int) = out.height * 2 := by
  have hholds : (BufferedScan.single openFrame).Holds := by
    show Fits 2 5
    decide
  obtain ⟨out, hrun, hheight, hdata, hlength⟩ :=
    (scanimage_buffer (.single openFrame) false).mpr hholds
  rw [hheight] at hdata
  exact ⟨out, hrun, hheight, hdata.trans (by decide), hlength⟩

/-- Three frames of one byte each. -/
def smallThreePass : ThreePass where
  parm := ⟨.red, false, 1, 1, 1, 8⟩
  order := (.red, .green, .blue)
  reads c := [[if c = .red then 1 else if c = .green then 2 else 3]]
  colours := List.Perm.refl _
  lines := by decide
  bytesPerLine := by decide
  depth := rfl
  length c := by cases c <;> rfl

/-- The blue byte is stored behind the block of two bytes. -/
theorem scanimage_buffer_overrun :
    scanBuffered false (BufferedScan.threePass smallThreePass).frames = .error .outOfBounds ∧
      ¬ (BufferedScan.threePass smallThreePass).Meets false := by
  have hrun : scanBuffered false (BufferedScan.threePass smallThreePass).frames =
      .error .outOfBounds := by decide +kernel
  refine ⟨hrun, ?_⟩
  rintro ⟨out, hout, -⟩
  exact nomatch hrun.symm.trans hout

end SaneBackends.Scanimage
