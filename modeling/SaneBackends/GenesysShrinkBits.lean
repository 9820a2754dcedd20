import SaneBackends.GenesysShrink

/-!
# Shrinking lines of single bits

`genesys_shrink_lines_1` works on bytes.  Shrinking keeps one byte of each group, doubling
works for one channel, and any other enlarging takes a byte for a pixel.
-/

namespace SaneBackends.Genesys

open LineStages

/-! ### The filter -/

/-- The variables of the loops that keep a byte of each group. -/
structure Taking where
  cnt : Nat
  srcX : Nat
  avg : Option (List Nat)
  src : List SaneByte

/-- The byte for the first four bits of another one. -/
def firstBits (byte : SaneByte) : SaneByte :=
  (byte &&& 0x80) >>> 0 ||| (byte &&& 0x80) >>> 1 ||| (byte &&& 0x40) >>> 1 |||
    (byte &&& 0x40) >>> 2 ||| (byte &&& 0x20) >>> 2 ||| (byte &&& 0x20) >>> 3 |||
    (byte &&& 0x10) >>> 3 ||| (byte &&& 0x10) >>> 4

/-- The byte for the last four. -/
def lastBits (byte : SaneByte) : SaneByte :=
  (byte &&& 0x08) <<< 4 ||| (byte &&& 0x08) <<< 3 ||| (byte &&& 0x04) <<< 3 |||
    (byte &&& 0x04) <<< 2 ||| (byte &&& 0x02) <<< 2 ||| (byte &&& 0x02) <<< 1 |||
    (byte &&& 0x01) <<< 1 ||| (byte &&& 0x01) <<< 0

/-- `2 * src_pixels == dst_pixels`: `n` bytes are doubled. -/
def doubleBytes : Nat → List SaneByte → Option (List SaneByte × List SaneByte)
  | 0, src => some ([], src)
  | _ + 1, [] => none
  | n + 1, byte :: src =>
    match doubleBytes n src with
    | none => none
    | some (out, rest) => some (firstBits byte :: lastBits byte :: out, rest)

namespace Shrink

/-- `while (cnt < src_pixels && src_x < src_pixels)`: the last bytes that are read are kept. -/
def takeGroup (p : Shrink) : Nat → Taking → Option Taking
  | 0, v => some v
  | turns + 1, v =>
    if v.cnt < p.srcPixels ∧ v.srcX < p.srcPixels then
      match readPixel p.bytes p.channels v.src with
      | none => none
      | some (px, src) =>
        takeGroup p turns ⟨(v.cnt + p.dstPixels) % UINT, v.srcX + 1, some px, src⟩
    else some v

/-- The loop over `dst_x`; undefined if `avg` has never been set. -/
def takePixels (p : Shrink) : Nat → Taking → Option (List SaneByte × Taking)
  | 0, v => some ([], v)
  | n + 1, v =>
    match takeGroup p (p.srcPixels - v.srcX) v with
    | none => none
    | some v =>
      match v.avg with
      | none => none
      | some px =>
        match takePixels p n { v with cnt := (v.cnt + UINT - p.srcPixels) % UINT } with
        | none => none
        | some (out, v) => some (pixelBytes p.bytes px ++ out, v)

/-- A turn of the loop over `y`; `avg` keeps its value from line to line. -/
def takeLine (p : Shrink) (avg : Option (List Nat)) (src : List SaneByte) :
    Option (List SaneByte × Taking) :=
  takePixels p p.dstPixels ⟨p.srcPixels / 2, 0, avg, src⟩

def takeLines (p : Shrink) : Nat → Option (List Nat) → List SaneByte → Option (List SaneByte)
  | 0, _, _ => some []
  | n + 1, avg, src =>
    match takeLine p avg src with
    | none => none
    | some (out, v) => (takeLines p n v.avg v.src).map (out ++ ·)

/-- The loop over `src_x` where the last pixel does not fill the line. -/
def expandPixels (p : Shrink) : Nat → Nat → Nat → List SaneByte →
    Option (List SaneByte × List SaneByte)
  | 0, _, _, src => some ([], src)
  | n + 1, cnt, dstX, src =>
    match readPixel p.bytes p.channels src with
    | none => none
    | some (px, src) =>
      let (out, cnt, dstX) := repeatPixel p px false (p.dstPixels - dstX) cnt dstX
      match expandPixels p n ((cnt + UINT - p.dstPixels) % UINT) dstX src with
      | none => none
      | some (more, rest) => some (out ++ more, rest)

/-- `src_pixels /= 8; dst_pixels /= 8`. -/
def eighth (p : Shrink) : Shrink :=
  { p with srcPixels := p.srcPixels / 8, dstPixels := p.dstPixels / 8 }

/-- A turn of the loop over `y`. -/
def bitTurn (p : Shrink) (avg : Option (List Nat)) (src : List SaneByte) :
    Option (List SaneByte × List SaneByte) :=
  if p.srcPixels > p.dstPixels then (p.eighth.takeLine avg src).map fun (out, v) => (out, v.src)
  else if 2 * p.srcPixels % UINT = p.dstPixels then doubleBytes (p.srcPixels / 8) src
  else p.expandPixels p.srcPixels (p.dstPixels / 2) 0 src

end Shrink

/-- `genesys_shrink_lines_1`, where a component is a byte. -/
def shrinkLines1 (p : Shrink) (lines : Nat) (src : List SaneByte) : Option (List SaneByte) :=
  if p.srcPixels > p.dstPixels then p.eighth.takeLines lines none src
  else consumeLines (p.bitTurn none) lines src

namespace Shrink

variable {p : Shrink} {l more out rest : List SaneByte} {n k : Nat}

/-! ### Shrinking -/

/-- A pixel of a line is the same, whatever is behind the line. -/
theorem pixelOf_append {b channels x : Nat} (more : List SaneByte)
    (hx : (x + 1) * (channels * b) ≤ l.length) :
    pixelOf b channels (l ++ more) x = pixelOf b channels l x := by
  apply List.map_congr_left
  intro c hc
  have hcell : (c + 1) * b ≤ channels * b :=
    Nat.mul_le_mul_right _ (List.mem_range.mp hc)
  have hplace : (x * channels + c) * b + b ≤ l.length := by
    rw [Nat.succ_mul, ← Nat.mul_assoc] at hx
    rw [Nat.succ_mul] at hcell
    rw [Nat.add_mul]
    omega
  rw [sample, sample, List.drop_append_of_le_length (by omega),
    List.take_append_of_le_length (by rw [List.length_drop]; omega)]

/-- The bytes are read as for an average, and the last ones of a group are kept. -/
theorem takeGroup_gather {turns : Nat} {g g' : Averaging}
    (hsrc : g.src = l.drop (g.srcX * p.pixelSize)) (hg : p.gather turns g = some g')
    (avg : Option (List Nat)) :
    g.count ≤ g'.count ∧ g'.srcX + g.count = g.srcX + g'.count ∧
      g'.src = l.drop (g'.srcX * p.pixelSize) ∧
      p.takeGroup turns ⟨g.cnt, g.srcX, avg, g.src⟩ = some ⟨g'.cnt, g'.srcX,
        if g'.count = g.count then avg else some (pixelOf p.bytes p.channels l (g'.srcX - 1)),
        g'.src⟩ := by
  induction turns generalizing g avg with
  | zero =>
    cases hg
    refine ⟨le_rfl, rfl, hsrc, ?_⟩
    rw [takeGroup, if_pos rfl]
  | succ turns ih =>
    rw [gather] at hg
    rw [takeGroup]
    split_ifs at hg with hgo
    · cases hread : readPixel p.bytes p.channels g.src with
      | none =>
        rw [hread] at hg
        cases hg
      | some pixel =>
        obtain ⟨px, rest⟩ := pixel
        rw [hread] at hg
        have hpixel := hread
        rw [hsrc] at hpixel
        obtain ⟨rfl, rfl⟩ := readPixel_eq_some hpixel
        obtain ⟨hcount, hsrcX, hsrc', htake⟩ := ih rfl hg
          (some (pixelOf p.bytes p.channels l g.srcX))
        dsimp only at hcount hsrcX htake
        refine ⟨Nat.le_of_succ_le hcount, by omega, hsrc', ?_⟩
        rw [if_pos hgo]
        simp only [htake]
        rw [if_neg (show g'.count ≠ g.count by omega)]
        split_ifs with hone
        · have hlast : g'.srcX - 1 = g.srcX := by omega
          rw [hlast]
        · rfl
    · cases hg
      refine ⟨le_rfl, rfl, hsrc, ?_⟩
      rw [if_neg hgo, if_pos rfl]

/-- Of each group of pixels of a line a copy of the last one is made, whatever is behind the
    line. -/
theorem takePixels_run (hfit : p.srcPixels + p.dstPixels < UINT)
    (hshrink : p.dstPixels < p.srcPixels) (hk : k + n = p.dstPixels) {v : Averaging}
    (h : p.Between k v) (hl : l.length = p.srcPixels * p.pixelSize)
    (hsrc : v.src = l.drop (v.srcX * p.pixelSize)) (hlast : n = 0 → v.cnt < p.dstPixels) :
    ∃ (pxs : List (List Nat)) (v' : Averaging), pxs.length = n ∧
      (∀ px ∈ pxs, ∃ x < p.srcPixels, px = pixelOf p.bytes p.channels l x) ∧
      p.Between p.dstPixels v' ∧ v'.cnt < p.dstPixels ∧
      ∀ avg more, ∃ avg', p.takePixels n ⟨v.cnt, v.srcX, avg, v.src ++ more⟩ =
        some (pxs.flatMap (pixelBytes p.bytes), ⟨v'.cnt, v'.srcX, avg', v'.src ++ more⟩) := by
  induction n generalizing k v with
  | zero =>
    rw [Nat.add_zero] at hk
    refine ⟨[], v, rfl, ?_, hk ▸ h, hlast rfl, ?_⟩
    · exact fun px hpx => absurd hpx List.not_mem_nil
    · exact fun avg more => ⟨avg, rfl⟩
  | succ n ih =>
    obtain ⟨v', hv', -, -, hpos, -, hwrap, -, hlt, hnext⟩ :=
      group_step hfit hshrink [] (by omega) h
    have hgather := takeGroup_gather (g := { v with
      count := 0
      avg := List.replicate p.channels 0 }) hsrc hv' none
    obtain ⟨-, hsrcX, hsrc', -⟩ := hgather
    dsimp only at hsrcX hsrc'
    obtain ⟨pxs, v'', hlen, hall, hend, hcnt, hrun⟩ := ih (by omega) hnext hsrc' (fun _ => hlt)
    have hle : v'.srcX ≤ p.srcPixels := hnext.inside.srcX_le
    refine ⟨pixelOf p.bytes p.channels l (v'.srcX - 1) :: pxs, v'', ?_, ?_, hend, hcnt, ?_⟩
    · rw [List.length_cons, hlen]
    · intro px hpx
      rcases List.mem_cons.mp hpx with rfl | hpx
      · exact ⟨v'.srcX - 1, by omega, rfl⟩
      · exact hall px hpx
    · intro avg more
      obtain ⟨v₁, hv₁, hmore, -⟩ := group_step hfit hshrink more (by omega) h
      obtain rfl : v₁ = v' := Option.some.inj (hv₁.symm.trans hv')
      have hfront : v.src ++ more = (l ++ more).drop (v.srcX * p.pixelSize) := by
        rw [hsrc, List.drop_append_of_le_length]
        rw [hl]
        exact Nat.mul_le_mul_right _ h.inside.srcX_le
      obtain ⟨-, -, -, htake⟩ := takeGroup_gather (g := { v with
        src := v.src ++ more
        count := 0
        avg := List.replicate p.channels 0 }) hfront hmore avg
      have hpixel : pixelOf p.bytes p.channels (l ++ more) (v₁.srcX - 1) =
          pixelOf p.bytes p.channels l (v₁.srcX - 1) := by
        apply pixelOf_append
        rw [hl, pixelSize, Nat.sub_add_cancel (by omega)]
        exact Nat.mul_le_mul_right _ hle
      obtain ⟨avg', hrest⟩ := hrun (some (pixelOf p.bytes p.channels l (v₁.srcX - 1))) more
      refine ⟨avg', ?_⟩
      dsimp only at htake
      rw [if_neg hpos, hpixel] at htake
      rw [takePixels]
      dsimp only
      rw [htake]
      dsimp only at hrest ⊢
      rw [hwrap, hrest]
      rfl

theorem readPixel_lengths {b channels : Nat} {px : List Nat} {src : List SaneByte}
    (h : readPixel b channels src = some (px, rest)) :
    px.length = channels ∧ src.length = rest.length + channels * b := by
  rw [readPixel] at h
  split_ifs at h with hshort
  cases h
  constructor
  · rw [List.length_map, List.length_range]
  · rw [List.length_drop]
    omega

/-- No more is read than the line has. -/
theorem takeGroup_lengths {turns : Nat} {v v' : Taking} (hv : p.takeGroup turns v = some v')
    (havg : ∀ px, v.avg = some px → px.length = p.channels) (hle : v.srcX ≤ p.srcPixels) :
    (∀ px, v'.avg = some px → px.length = p.channels) ∧ v'.srcX ≤ p.srcPixels ∧
      v.src.length + v.srcX * p.pixelSize = v'.src.length + v'.srcX * p.pixelSize := by
  induction turns generalizing v with
  | zero =>
    cases hv
    exact ⟨havg, hle, rfl⟩
  | succ turns ih =>
    rw [takeGroup] at hv
    split_ifs at hv with hgo
    · cases hread : readPixel p.bytes p.channels v.src with
      | none =>
        rw [hread] at hv
        cases hv
      | some pixel =>
        obtain ⟨px, rest⟩ := pixel
        rw [hread] at hv
        obtain ⟨hpx, hsrc⟩ := readPixel_lengths hread
        obtain ⟨havg', hle', hlen⟩ := ih hv (by rintro px' ⟨⟩; exact hpx) hgo.2
        refine ⟨havg', hle', ?_⟩
        rw [← hlen, hsrc, Nat.succ_mul, pixelSize]
        dsimp only
        omega
    · cases hv
      exact ⟨havg, hle, rfl⟩

theorem takePixels_lengths {v v' : Taking} (hv : p.takePixels n v = some (out, v'))
    (havg : ∀ px, v.avg = some px → px.length = p.channels) (hle : v.srcX ≤ p.srcPixels) :
    out.length = n * p.pixelSize ∧ v'.srcX ≤ p.srcPixels ∧
      v.src.length + v.srcX * p.pixelSize = v'.src.length + v'.srcX * p.pixelSize := by
  induction n generalizing v out with
  | zero =>
    cases hv
    exact ⟨(Nat.zero_mul _).symm, hle, rfl⟩
  | succ n ih =>
    rw [takePixels] at hv
    cases hgroup : p.takeGroup (p.srcPixels - v.srcX) v with
    | none =>
      rw [hgroup] at hv
      cases hv
    | some u =>
      obtain ⟨havg', hle', hlen⟩ := takeGroup_lengths hgroup havg hle
      rw [hgroup] at hv
      dsimp only at hv
      cases hpx : u.avg with
      | none =>
        rw [hpx] at hv
        cases hv
      | some px =>
        rw [hpx] at hv
        dsimp only at hv
        split at hv
        · cases hv
        · rename_i out' u' hmore
          cases hv
          obtain ⟨hout, hle'', hlen'⟩ := ih hmore (by rw [← hpx]; exact havg') hle'
          refine ⟨?_, hle'', hlen.trans hlen'⟩
          rw [List.length_append, length_pixelBytes, havg' px hpx, hout, Nat.succ_mul, pixelSize,
            Nat.add_comm]

/-! ### Enlarging -/

theorem doubleBytes_some (l more : List SaneByte) :
    doubleBytes l.length (l ++ more) =
      some (l.flatMap fun byte => [firstBits byte, lastBits byte], more) := by
  induction l with
  | nil => rfl
  | cons byte l ih =>
    rw [List.length_cons, List.cons_append, doubleBytes, ih]
    rfl

theorem doubleBytes_lengths {src : List SaneByte} (h : doubleBytes n src = some (out, rest)) :
    src.length = n + rest.length := by
  induction n generalizing src out with
  | zero =>
    cases h
    exact (Nat.zero_add _).symm
  | succ n ih =>
    cases src with
    | nil => cases h
    | cons byte src =>
      rw [doubleBytes] at h
      cases hmore : doubleBytes n src with
      | none =>
        rw [hmore] at h
        cases h
      | some result =>
        obtain ⟨out', rest'⟩ := result
        rw [hmore] at h
        cases h
        rw [List.length_cons, ih hmore]
        omega

/-- Any other enlarging reads a byte for each pixel. -/
theorem expandPixels_reads {cnt dstX : Nat} {src : List SaneByte}
    (h : p.expandPixels n cnt dstX src = some (out, rest)) :
    src.length = rest.length + n * p.pixelSize := by
  induction n generalizing cnt dstX src out with
  | zero =>
    cases h
    rw [Nat.zero_mul]
    rfl
  | succ n ih =>
    rw [expandPixels] at h
    cases hread : readPixel p.bytes p.channels src with
    | none =>
      rw [hread] at h
      cases h
    | some pixel =>
      obtain ⟨px, src'⟩ := pixel
      rw [hread] at h
      dsimp only at h
      split at h
      · cases h
      · rename_i more rest' hmore
        cases h
        rw [(readPixel_lengths hread).2, ih hmore, Nat.succ_mul, pixelSize]
        omega

/-- From one pixel half of the line is filled. -/
theorem repeatPixel_one (hsrc : p.srcPixels = 1) (hdst : p.dstPixels < UINT) (px : List Nat)
    {turns cnt dstX : Nat} (hturns : dstX + turns = p.dstPixels) (hcnt : cnt ≤ p.dstPixels)
    (hroom : p.dstPixels ≤ cnt + turns) :
    (p.repeatPixel px false turns cnt dstX).1 =
      (List.replicate (p.dstPixels - cnt) px).flatMap (pixelBytes p.bytes) := by
  induction turns generalizing cnt dstX with
  | zero =>
    obtain rfl : cnt = p.dstPixels := by omega
    rw [repeatPixel, Nat.sub_self]
    rfl
  | succ turns ih =>
    rw [repeatPixel]
    rcases Nat.lt_or_ge cnt p.dstPixels with hless | hfull
    · have hnext : (cnt + p.srcPixels) % UINT = cnt + 1 := by
        rw [hsrc, Nat.mod_eq_of_lt (by omega)]
      obtain ⟨m, hm⟩ : ∃ m, p.dstPixels - cnt = m + 1 := ⟨p.dstPixels - cnt - 1, by omega⟩
      have hmore := @ih (cnt + 1) (dstX + 1) (by omega) hless (by omega)
      have hm' : p.dstPixels - (cnt + 1) = m := by omega
      rw [if_pos ⟨.inl hless, by omega⟩, hnext, hm, List.replicate_succ, List.flatMap_cons, ← hm',
        ← hmore]
    · have hstop : ¬ ((cnt < p.dstPixels ∨ false = true) ∧ dstX < p.dstPixels) := by
        rintro ⟨hless | hfalse, -⟩
        · omega
        · cases hfalse
      obtain rfl : cnt = p.dstPixels := le_antisymm hcnt hfull
      rw [if_neg hstop, Nat.sub_self]
      rfl

theorem expandPixels_one (hsrc : p.srcPixels = 1) (hdst : p.dstPixels < UINT)
    {l : List SaneByte} (hl : l.length = p.pixelSize) (more : List SaneByte) :
    p.expandPixels 1 (p.dstPixels / 2) 0 (l ++ more) =
      some ((List.replicate (p.dstPixels - p.dstPixels / 2)
        (pixelOf p.bytes p.channels l 0)).flatMap (pixelBytes p.bytes), more) := by
  obtain ⟨px, -, hread, hread'⟩ := readPixel_append (b := p.bytes) more hl.ge
  have hpixel : readPixel p.bytes p.channels (l.drop (0 * (p.channels * p.bytes))) =
      some (px, l.drop (p.channels * p.bytes)) := by rwa [Nat.zero_mul]
  obtain ⟨rfl, -⟩ := readPixel_eq_some hpixel
  have hrest : l.drop (p.channels * p.bytes) = [] := List.drop_eq_nil_of_le hl.le
  have hrepeat := @repeatPixel_one p hsrc hdst (pixelOf p.bytes p.channels l 0)
    (p.dstPixels - 0) (p.dstPixels / 2) 0 (by omega) (by omega) (by omega)
  rw [expandPixels, hread', hrest]
  dsimp only
  rw [← hrepeat, expandPixels]
  dsimp only
  rw [List.append_nil]
  rfl

end Shrink

/-! ### Bits -/

/-- Bit `x` of component `c` of a line, whose bytes hold the components in turn; the first
    bit is the highest one. -/
def bitSample (channels : Nat) (l : List SaneByte) (x c : Nat) : Nat :=
  ((l.getD (x / 8 * channels + c) 0).getLsbD (7 - x % 8)).toNat

theorem sample_byte (channels : Nat) (l : List SaneByte) (x c : Nat) :
    sample 1 channels l x c = (l.getD (x * channels + c) 0).toNat := by
  rw [sample, Nat.mul_one, List.getD_eq_getElem?_getD]
  rcases Nat.lt_or_ge (x * channels + c) l.length with hin | hout
  · rw [List.drop_eq_getElem_cons hin, List.getElem?_eq_getElem hin]
    rfl
  · rw [List.drop_eq_nil_of_le hout, List.getElem?_eq_none hout]
    rfl

/-- A copy of a byte is a copy of its bits. -/
theorem bitSample_copy {channels k x c : Nat} {l out : List SaneByte}
    (h : sample 1 channels out (k / 8) c = sample 1 channels l x c) :
    bitSample channels out k c = bitSample channels l (8 * x + k % 8) c := by
  rw [sample_byte, sample_byte] at h
  have hbyte := BitVec.eq_of_toNat_eq h
  have hplace : (8 * x + k % 8) / 8 = x := by omega
  have hbit : (8 * x + k % 8) % 8 = k % 8 := by omega
  rw [bitSample, bitSample, hbyte, hplace, hbit]

/-- The bits of a byte are doubled. -/
theorem firstBits_bit (byte : SaneByte) {i : Nat} (hi : i < 8) :
    (firstBits byte).getLsbD (7 - i) = byte.getLsbD (7 - i / 2) := by
  interval_cases i <;> simp [firstBits]

theorem lastBits_bit (byte : SaneByte) {i : Nat} (hi : i < 8) :
    (lastBits byte).getLsbD (7 - i) = byte.getLsbD (3 - i / 2) := by
  interval_cases i <;> simp [lastBits]

theorem getD_doubled (l : List SaneByte) (i : Nat) :
    (l.flatMap fun byte => [firstBits byte, lastBits byte]).getD i 0 =
      if i % 2 = 0 then firstBits (l.getD (i / 2) 0) else lastBits (l.getD (i / 2) 0) := by
  induction l generalizing i with
  | nil =>
    split_ifs
    · simp [firstBits]
    · simp [lastBits]
  | cons byte l ih =>
    rcases i with - | - | i
    · rfl
    · rfl
    · have hmod : (i + 1 + 1) % 2 = i % 2 := by omega
      have hdiv : (i + 1 + 1) / 2 = i / 2 + 1 := by omega
      rw [hmod, hdiv, List.getD_cons_succ, ← ih]
      rfl

theorem bitSample_doubled (l : List SaneByte) (k : Nat) :
    bitSample 1 (l.flatMap fun byte => [firstBits byte, lastBits byte]) k 0 =
      bitSample 1 l (k / 2) 0 := by
  have hbyte : k / 8 / 2 = k / 2 / 8 := by omega
  rw [bitSample, bitSample, Nat.mul_one, Nat.add_zero, Nat.mul_one, Nat.add_zero, getD_doubled,
    hbyte]
  split_ifs with hfirst
  · have hbit : 7 - k % 8 / 2 = 7 - k / 2 % 8 := by omega
    rw [firstBits_bit _ (Nat.mod_lt _ (by decide)), hbit]
  · have hbit : 3 - k % 8 / 2 = 7 - k / 2 % 8 := by omega
    rw [lastBits_bit _ (Nat.mod_lt _ (by decide)), hbit]

/-! ### Lines of bits -/

/-- Line by line, if each turn makes a line of its line. -/
theorem actsByLine_of {σ : Type} {srcLine dstLine : Nat}
    {made : List SaneByte → List SaneByte → Prop}
    {turn : σ → List SaneByte → Option (List SaneByte × List SaneByte)}
    {whole : Nat → List SaneByte → Option (List SaneByte)}
    (hturn : ∀ l : List SaneByte, l.length = srcLine → ∃ out : List SaneByte,
      out.length = dstLine ∧ made l out ∧ ∀ s more, turn s (l ++ more) = some (out, more))
    (hwhole : ∀ f : List SaneByte → List SaneByte,
      (∀ (s : σ) (l more : List SaneByte), l.length = srcLine →
        turn s (l ++ more) = some (f l, more)) →
      ∀ (ls : List (List SaneByte)) (more : List SaneByte), (∀ l ∈ ls, l.length = srcLine) →
        whole ls.length (ls.flatten ++ more) = some (ls.flatMap f)) :
    ActsByLine srcLine dstLine made turn whole := by
  classical
  choose f hlen hmade hrun using hturn
  let g : List SaneByte → List SaneByte := fun l =>
    if h : l.length = srcLine then f l h else []
  have hg : ∀ (s : σ) (l more : List SaneByte), l.length = srcLine →
      turn s (l ++ more) = some (g l, more) := by
    intro s l more hl
    have hvalue : g l = f l hl := dif_pos hl
    rw [hvalue]
    exact hrun l hl s more
  refine ⟨g, ?_, hg, hwhole g hg⟩
  intro l hl
  have hvalue : g l = f l hl := dif_pos hl
  rw [hvalue]
  exact ⟨hlen l hl, hmade l hl⟩

namespace Shrink

variable {p : Shrink} {l more out rest : List SaneByte} {n k : Nat}

/-- `genesys_shrink_lines_1` acts line by line, for lines of whole bytes. -/
def BitsAct (p : Shrink) : Prop :=
  ActsByLine (p.channels * ((p.srcPixels + 7) / 8)) (p.channels * ((p.dstPixels + 7) / 8))
    (fun l out => MadeOf p.channels p.srcPixels p.dstPixels (bitSample p.channels l)
      (bitSample p.channels out))
    p.bitTurn (shrinkLines1 p)

/-- Whole bytes are shrunk to more than half, or the bits of one channel are doubled, or the
    line is a single pixel. -/
def BitsFit (p : Shrink) : Prop :=
  p.dstPixels < p.srcPixels ∧ 8 ∣ p.srcPixels ∧ 8 ∣ p.dstPixels ∧
      p.srcPixels / 8 / 2 < p.dstPixels / 8 ∨
    p.dstPixels = 2 * p.srcPixels ∧ 8 ∣ p.srcPixels ∧ p.channels = 1 ∨
    p.srcPixels = 1 ∧ p.dstPixels = 1

theorem takeLines_flatten {f : List SaneByte → List SaneByte} {line : Nat}
    (h : ∀ avg l more, l.length = line →
      ((p.takeLine avg (l ++ more)).map fun (out, v) => (out, v.src)) = some (f l, more))
    (avg : Option (List Nat)) {ls : List (List SaneByte)} (more : List SaneByte)
    (hls : ∀ l ∈ ls, l.length = line) :
    p.takeLines ls.length avg (ls.flatten ++ more) = some (ls.flatMap f) := by
  induction ls generalizing avg with
  | nil => rfl
  | cons l ls ih =>
    obtain ⟨⟨out, v⟩, hv, heq⟩ := Option.map_eq_some_iff.mp
      (h avg l (ls.flatten ++ more) (hls l (List.mem_cons_self ..)))
    obtain ⟨rfl, hsrc⟩ := Prod.mk.inj heq
    rw [List.length_cons, takeLines, List.flatten_cons, List.append_assoc, hv]
    dsimp only
    rw [hsrc, ih v.avg fun l hl => hls l (List.mem_cons_of_mem _ hl)]
    rfl

/-- Shrinking whole bytes. -/
theorem bitTurn_shrinks (hp : p.Called) (hbytes : p.bytes = 1) (hshrink : p.dstPixels < p.srcPixels)
    (hsrc : 8 ∣ p.srcPixels) (hdst : 8 ∣ p.dstPixels)
    (hhalf : p.srcPixels / 8 / 2 < p.dstPixels / 8)
    (hl : l.length = p.channels * ((p.srcPixels + 7) / 8)) :
    ∃ out : List SaneByte, out.length = p.channels * ((p.dstPixels + 7) / 8) ∧
      MadeOf p.channels p.srcPixels p.dstPixels (bitSample p.channels l)
        (bitSample p.channels out) ∧
      ∀ avg more, p.bitTurn avg (l ++ more) = some (out, more) := by
  have hpixels := hp.srcPixels
  have hpixels' := hp.dstPixels
  have hsize : p.eighth.pixelSize = p.channels := by
    show p.channels * p.bytes = p.channels
    rw [hbytes, Nat.mul_one]
  have hsrc8 : (p.srcPixels + 7) / 8 = p.srcPixels / 8 := by omega
  have hdst8 : (p.dstPixels + 7) / 8 = p.dstPixels / 8 := by omega
  have hl' : l.length = p.eighth.srcPixels * p.eighth.pixelSize := by
    rw [hl, hsize, hsrc8, Nat.mul_comm]
    rfl
  have hfit : p.eighth.srcPixels + p.eighth.dstPixels < UINT := by
    have hsum := hp.sum_lt
    show p.srcPixels / 8 + p.dstPixels / 8 < UINT
    omega
  have hless : p.eighth.dstPixels < p.eighth.srcPixels := by
    show p.dstPixels / 8 < p.srcPixels / 8
    omega
  have hpos : 0 < p.eighth.srcPixels := by
    show 0 < p.srcPixels / 8
    omega
  have hpos' : 0 < p.eighth.dstPixels := by
    show 0 < p.dstPixels / 8
    omega
  obtain ⟨pxs, v, hlen, hall, hend, -, hrun⟩ := takePixels_run hfit hless (Nat.zero_add _)
    (@between_start p.eighth hpos l hl' [] 0) hl' (by rw [Nat.zero_mul]; rfl)
    (fun h0 => absurd h0 hpos'.ne')
  have hused := used_of_half hhalf hend
  have hpx : ∀ px ∈ pxs, px.length = p.channels := by
    intro px hpx
    obtain ⟨x, -, rfl⟩ := hall px hpx
    rw [pixelOf, List.length_map, List.length_range]
    rfl
  refine ⟨pxs.flatMap (pixelBytes p.bytes), ?_, ⟨?_, fun hle => absurd hshrink (by omega)⟩, ?_⟩
  · have hcells : ∀ vs : List Nat, (vs.flatMap (componentBytes p.bytes)).length =
        vs.length * p.bytes := length_pixelBytes p.bytes
    rw [flatMap_pixelBytes, hcells, length_flatten_pixels hpx, hlen, hbytes, Nat.mul_one, hdst8,
      Nat.mul_comm]
    rfl
  · intro _ k hk
    have hbyte : k / 8 < pxs.length := by
      rw [hlen]
      show k / 8 < p.dstPixels / 8
      omega
    obtain ⟨x, hx, hcopy⟩ := sample_copies (p := p.eighth) hall hbyte
    have hx' : x < p.srcPixels / 8 := hx
    refine ⟨8 * x + k % 8, 1, Nat.one_pos, by omega, ?_⟩
    intro c hc
    have hsame : sample p.bytes p.channels (pxs.flatMap (pixelBytes p.bytes)) (k / 8) c =
        sample p.bytes p.channels l x c := hcopy c hc
    rw [hbytes] at hsame ⊢
    rw [bitSample_copy hsame]
    simp
  · intro avg more
    obtain ⟨avg', hresult⟩ := hrun avg more
    rw [bitTurn, if_pos hshrink]
    show ((p.eighth.takePixels p.eighth.dstPixels
      ⟨p.eighth.srcPixels / 2, 0, avg, l ++ more⟩).map _) = _
    dsimp only at hresult
    rw [hresult, hused]
    rfl

/-- Doubling the bits of one channel. -/
theorem bitTurn_doubles (hp : p.Called) (hdouble : p.dstPixels = 2 * p.srcPixels)
    (hsrc : 8 ∣ p.srcPixels) (hone : p.channels = 1)
    (hl : l.length = p.channels * ((p.srcPixels + 7) / 8)) :
    ∃ out : List SaneByte, out.length = p.channels * ((p.dstPixels + 7) / 8) ∧
      MadeOf p.channels p.srcPixels p.dstPixels (bitSample p.channels l)
        (bitSample p.channels out) ∧
      ∀ avg more, p.bitTurn avg (l ++ more) = some (out, more) := by
  have hpixels := hp.srcPixels
  have hsum := hp.sum_lt
  have hl' : l.length = p.srcPixels / 8 := by
    rw [hl, hone]
    omega
  refine ⟨l.flatMap fun byte => [firstBits byte, lastBits byte], ?_, ⟨?_, ?_⟩, ?_⟩
  · have hcells : (l.flatMap fun byte => [firstBits byte, lastBits byte]).length =
        l.length * 2 := by
      rw [List.length_flatMap]
      simp
    rw [hcells, hl', hone]
    omega
  · intro hless
    omega
  · intro _ k hk
    refine ⟨k / 2, by omega, ?_⟩
    intro c hc
    rw [hone] at hc ⊢
    obtain rfl : c = 0 := by omega
    exact bitSample_doubled l k
  · intro avg more
    have hwrap : 2 * p.srcPixels % UINT = p.dstPixels := by
      rw [hdouble]
      apply Nat.mod_eq_of_lt
      have huint : UINT = 2 * 2 ^ 31 := by decide
      omega
    rw [bitTurn, if_neg (by omega), if_pos hwrap, ← hl']
    exact doubleBytes_some l more

/-- A line of a single pixel. -/
theorem bitTurn_single (hp : p.Called) (hbytes : p.bytes = 1) (hsrc : p.srcPixels = 1)
    (hdst : p.dstPixels = 1) (hl : l.length = p.channels * ((p.srcPixels + 7) / 8)) :
    ∃ out : List SaneByte, out.length = p.channels * ((p.dstPixels + 7) / 8) ∧
      MadeOf p.channels p.srcPixels p.dstPixels (bitSample p.channels l)
        (bitSample p.channels out) ∧
      ∀ avg more, p.bitTurn avg (l ++ more) = some (out, more) := by
  have hl' : l.length = p.pixelSize := by
    rw [hl, hsrc, pixelSize, hbytes]
  have hcopies : ∀ px ∈ [pixelOf p.bytes p.channels l 0], ∃ x < p.srcPixels,
      px = pixelOf p.bytes p.channels l x := by
    intro px hpx
    exact ⟨0, hp.srcPixels.1, List.mem_singleton.mp hpx⟩
  refine ⟨[pixelOf p.bytes p.channels l 0].flatMap (pixelBytes p.bytes), ?_, ⟨?_, ?_⟩, ?_⟩
  · rw [List.flatMap_singleton, length_pixelBytes, pixelOf, List.length_map, List.length_range,
      hbytes, hdst]
  · intro hless
    omega
  · intro _ k hk
    obtain ⟨x, hx, hcopy⟩ := sample_copies (k := k / 8) hcopies (by
      rw [List.length_singleton]
      omega)
    refine ⟨8 * x + k % 8, by omega, ?_⟩
    intro c hc
    have hsame := hcopy c hc
    rw [hbytes] at hsame ⊢
    exact bitSample_copy hsame
  · intro avg more
    have hnot : ¬ 2 * p.srcPixels % UINT = p.dstPixels := by
      rw [hsrc, hdst]
      decide
    have hrun := expandPixels_one hsrc (by rw [hdst]; decide) hl' more
    rw [bitTurn, if_neg (by omega), if_neg hnot, hsrc, hrun, hdst]
    rfl

/-- Where a line is used up and a line is made, the numbers of pixels fit. -/
theorem bitsFit_of_turn (hp : p.Called) (hbytes : p.bytes = 1)
    (hl : l.length = p.channels * ((p.srcPixels + 7) / 8))
    (hout : out.length = p.channels * ((p.dstPixels + 7) / 8))
    (hrun : p.bitTurn none l = some (out, [])) : p.BitsFit := by
  have hpixels := hp.srcPixels
  have hpixels' := hp.dstPixels
  have hchannels := hp.channels.1
  have hsum := hp.sum_lt
  rw [bitTurn] at hrun
  split_ifs at hrun with hshrink hdouble
  · left
    obtain ⟨⟨out', v⟩, hv, heq⟩ := Option.map_eq_some_iff.mp hrun
    obtain ⟨rfl, hrest⟩ := Prod.mk.inj heq
    have hsize : p.eighth.pixelSize = p.channels := by
      show p.channels * p.bytes = p.channels
      rw [hbytes, Nat.mul_one]
    obtain ⟨hlen, hle, hused⟩ := takePixels_lengths hv (by rintro px ⟨⟩) (Nat.zero_le _)
    dsimp only at hused
    rw [hrest, List.length_nil, Nat.zero_mul, Nat.add_zero, Nat.zero_add, hsize, hl,
      Nat.mul_comm p.channels] at hused
    rw [hsize, hout, Nat.mul_comm p.channels] at hlen
    have hsrc : (p.srcPixels + 7) / 8 ≤ p.srcPixels / 8 := by
      rw [Nat.eq_of_mul_eq_mul_right hchannels hused]
      exact hle
    have hdst : (p.dstPixels + 7) / 8 = p.dstPixels / 8 :=
      Nat.eq_of_mul_eq_mul_right hchannels hlen
    refine ⟨hshrink, by omega, by omega, ?_⟩
    have hl' : l.length = p.eighth.srcPixels * p.eighth.pixelSize := by
      rw [hl, hsize, Nat.mul_comm]
      congr 1
      exact le_antisymm hsrc (Nat.div_le_div_right (Nat.le_add_right _ _))
    have hpos : 0 < p.eighth.srcPixels := by
      show 0 < p.srcPixels / 8
      omega
    have hpos' : 0 < p.eighth.dstPixels := by
      show 0 < p.dstPixels / 8
      omega
    have hless : p.eighth.dstPixels < p.eighth.srcPixels := by
      show p.dstPixels / 8 < p.srcPixels / 8
      omega
    have hfit : p.eighth.srcPixels + p.eighth.dstPixels < UINT := by
      show p.srcPixels / 8 + p.dstPixels / 8 < UINT
      omega
    obtain ⟨pxs, v', -, -, hend, hcnt, hall⟩ := takePixels_run hfit hless (Nat.zero_add _)
      (@between_start p.eighth hpos l hl' [] 0) hl' (by rw [Nat.zero_mul]; rfl)
      (fun h0 => absurd h0 hpos'.ne')
    obtain ⟨avg', hresult⟩ := hall none []
    dsimp only at hresult
    rw [List.append_nil, List.append_nil] at hresult
    rw [takeLine, hresult] at hv
    cases hv
    exact half_of_used (hsize ▸ hchannels) hend hcnt hrest
  · right
    left
    have hlen := doubleBytes_lengths hrun
    rw [hl, List.length_nil, Nat.add_zero] at hlen
    have hone : p.channels = 1 := by
      by_contra hmore
      have hmul : 2 * ((p.srcPixels + 7) / 8) ≤ p.channels * ((p.srcPixels + 7) / 8) :=
        Nat.mul_le_mul_right _ (by omega)
      omega
    rw [hone] at hlen
    have huint : UINT = 2 * 2 ^ 31 := by decide
    rw [Nat.mod_eq_of_lt (by omega)] at hdouble
    exact ⟨hdouble.symm, by omega, hone⟩
  · right
    right
    have hreads := expandPixels_reads hrun
    rw [hl, List.length_nil, Nat.zero_add, pixelSize, hbytes, Nat.mul_one,
      Nat.mul_comm p.channels] at hreads
    have hsrc := Nat.eq_of_mul_eq_mul_right hchannels hreads
    have hone : p.srcPixels = 1 := by omega
    refine ⟨hone, ?_⟩
    have hl' : l.length = p.pixelSize := by
      rw [hl, hone, pixelSize, hbytes]
    have hresult := expandPixels_one hone (by omega) hl' []
    rw [List.append_nil] at hresult
    rw [hone, hresult] at hrun
    cases hrun
    have hcopies : ∀ px ∈ List.replicate (p.dstPixels - p.dstPixels / 2)
        (pixelOf p.bytes p.channels l 0), px.length = p.channels := by
      intro px hpx
      rw [(List.mem_replicate.mp hpx).2, pixelOf, List.length_map, List.length_range]
    have hcells : ∀ vs : List Nat, (vs.flatMap (componentBytes p.bytes)).length =
        vs.length * p.bytes := length_pixelBytes p.bytes
    rw [flatMap_pixelBytes, hcells, length_flatten_pixels hcopies, List.length_replicate, hbytes,
      Nat.mul_one, Nat.mul_comm p.channels] at hout
    have hdst := Nat.eq_of_mul_eq_mul_right hchannels hout
    rw [hone] at hdouble
    have htwo : 2 * 1 % UINT = 2 := by decide
    omega

/-- It does so if and only if the numbers of pixels fit. -/
theorem bitsAct_iff (hp : p.Called) (hbytes : p.bytes = 1) : p.BitsAct ↔ p.BitsFit := by
  constructor
  · rintro ⟨f, hmade, hturn, -⟩
    have hl : (List.replicate (p.channels * ((p.srcPixels + 7) / 8)) (0 : SaneByte)).length =
        p.channels * ((p.srcPixels + 7) / 8) := List.length_replicate
    have hrun := hturn none _ [] hl
    rw [List.append_nil] at hrun
    exact bitsFit_of_turn hp hbytes hl (hmade _ hl).1 hrun
  · intro hfit
    refine actsByLine_of ?_ ?_
    · intro l hl
      rcases hfit with ⟨hshrink, hsrc, hdst, hhalf⟩ | ⟨hdouble, hsrc, hone⟩ | ⟨hsrc, hdst⟩
      · exact bitTurn_shrinks hp hbytes hshrink hsrc hdst hhalf hl
      · exact bitTurn_doubles hp hdouble hsrc hone hl
      · exact bitTurn_single hp hbytes hsrc hdst hl
    · intro f hf ls more hls
      rw [shrinkLines1]
      split_ifs with hshrink
      · apply takeLines_flatten _ none more hls
        intro avg l more hl
        have hturn := hf avg l more hl
        rwa [bitTurn, if_pos hshrink] at hturn
      · exact consumeLines_flatten (hf none) more hls

end Shrink

/-! ### All depths -/

inductive Depth where
  | one | eight | sixteen
deriving DecidableEq, Repr

/-- The parameters of `genesys_shrink_lines_1`, `_8` or `_16`. -/
def Depth.shrink (depth : Depth) (channels srcPixels dstPixels : Nat) : Shrink :=
  ⟨if depth = .sixteen then 2 else 1, channels, srcPixels, dstPixels⟩

/-- The function for this depth acts line by line. -/
def Depth.Acts (depth : Depth) (channels srcPixels dstPixels : Nat) : Prop :=
  match depth with
  | .one => (depth.shrink channels srcPixels dstPixels).BitsAct
  | _ => (depth.shrink channels srcPixels dstPixels).LinesAct

def Depth.Fits (depth : Depth) (channels srcPixels dstPixels : Nat) : Prop :=
  match depth with
  | .one => (depth.shrink channels srcPixels dstPixels).BitsFit
  | _ => dstPixels < srcPixels → srcPixels / 2 < dstPixels

/-- Which lines can be shrunk or enlarged one by one, for as many channels as `avg` has room
    for and numbers of pixels that are ints. -/
theorem acts_iff {depth : Depth} {channels srcPixels dstPixels : Nat}
    (hchannels : 0 < channels ∧ channels ≤ 3) (hsrc : 0 < srcPixels ∧ srcPixels < 2 ^ 31)
    (hdst : 0 < dstPixels ∧ dstPixels < 2 ^ 31) :
    depth.Acts channels srcPixels dstPixels ↔ depth.Fits channels srcPixels dstPixels := by
  have hbytes : (depth.shrink channels srcPixels dstPixels).bytes = 1 ∨
      (depth.shrink channels srcPixels dstPixels).bytes = 2 := by
    unfold Depth.shrink
    split_ifs
    · exact .inr rfl
    · exact .inl rfl
  have hp : (depth.shrink channels srcPixels dstPixels).Called := ⟨hbytes, hchannels, hsrc, hdst⟩
  cases depth with
  | one => exact Shrink.bitsAct_iff hp rfl
  | eight => exact Shrink.linesAct_iff hp
  | sixteen => exact Shrink.linesAct_iff hp

theorem acts_five_to_three : Depth.eight.Acts 3 5 3 := by
  apply (acts_iff ⟨by decide, by decide⟩ ⟨by decide, by decide⟩ ⟨by decide, by decide⟩).mpr
  exact fun _ => by decide

/-- Of three pixels the last one is left to the next line. -/
theorem acts_left_over : ¬ Depth.eight.Acts 1 3 1 := by
  rintro ⟨f, -, hturn, -⟩
  have hrun : (Depth.eight.shrink 1 3 1).lineTurn [1, 2, 3] = some (f [1, 2, 3], []) :=
    hturn () [1, 2, 3] [] rfl
  have hleft : (Depth.eight.shrink 1 3 1).lineTurn [1, 2, 3] = some ([1], [3]) := by decide
  rw [hleft] at hrun
  exact List.cons_ne_nil _ _ (Prod.mk.inj (Option.some.inj hrun)).2

end SaneBackends.Genesys
