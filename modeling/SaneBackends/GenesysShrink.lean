import SaneBackends.GenesysConversion
import Mathlib.Data.List.GetD

/-!
# What a shrunk line is made of

The samples of the new line are averages of consecutive samples of the old one, or copies.
Shrinking uses a line up only if more than half of its pixels are left.
-/

namespace SaneBackends.Genesys

open LineStages

/-! ### Samples -/

/-- Component `c` of pixel `x` of a line. -/
def sample (b channels : Nat) (l : List SaneByte) (x c : Nat) : Nat :=
  componentValue ((l.drop ((x * channels + c) * b)).take b)

/-- All components of a pixel. -/
def pixelOf (b channels : Nat) (l : List SaneByte) (x : Nat) : List Nat :=
  (List.range channels).map (sample b channels l x)

/-- The samples of a line of `dst` pixels, made of those of a line of `src` pixels. -/
structure MadeOf (channels src dst : Nat) (given made : Nat → Nat → Nat) : Prop where
  averaged : dst < src → ∀ k < dst, ∃ x n, 0 < n ∧ x + n ≤ src ∧ ∀ c < channels,
    made k c = ((List.range n).map fun i => given (x + i) c).sum / n
  copied : src ≤ dst → ∀ k < dst, ∃ x < src, ∀ c < channels, made k c = given x c

/-- Lines are worked on one by one: of each line a line is made, from nothing else, and the
    line is used up, whatever the state in front of it and the bytes behind it are. -/
def ActsByLine {σ : Type} (srcLine dstLine : Nat) (made : List SaneByte → List SaneByte → Prop)
    (turn : σ → List SaneByte → Option (List SaneByte × List SaneByte))
    (whole : Nat → List SaneByte → Option (List SaneByte)) : Prop :=
  ∃ f : List SaneByte → List SaneByte,
    (∀ l, l.length = srcLine → (f l).length = dstLine ∧ made l (f l)) ∧
    (∀ (s : σ) (l more : List SaneByte), l.length = srcLine →
      turn s (l ++ more) = some (f l, more)) ∧
    ∀ (ls : List (List SaneByte)) (more : List SaneByte), (∀ l ∈ ls, l.length = srcLine) →
      whole ls.length (ls.flatten ++ more) = some (ls.flatMap f)

variable {b channels n : Nat} {l : List SaneByte}

theorem componentValue_lt (l : List SaneByte) : componentValue l < 256 ^ l.length := by
  induction l with
  | nil => exact Nat.one_pos
  | cons byte l ih =>
    have hbyte : byte.toNat < 256 := byte.isLt
    rw [componentValue, List.length_cons, Nat.pow_succ]
    omega

theorem sample_lt (b channels : Nat) (l : List SaneByte) (x c : Nat) :
    sample b channels l x c < 256 ^ b := by
  apply (componentValue_lt _).trans_le
  exact Nat.pow_le_pow_right (by decide) (List.length_take_le _ _)

/-- A component that fits is read back. -/
theorem componentValue_componentBytes {b v : Nat} (hv : v < 256 ^ b) :
    componentValue (componentBytes b v) = v := by
  induction b generalizing v with
  | zero =>
    rw [Nat.pow_zero] at hv
    rw [componentBytes, componentValue]
    omega
  | succ b ih =>
    rw [Nat.pow_succ] at hv
    rw [componentBytes, componentValue, ih (by omega), BitVec.toNat_ofNat]
    omega

/-- The bytes of component `i` of several. -/
theorem take_components {vs : List Nat} {i : Nat} (hi : i < vs.length) :
    ((vs.flatMap (componentBytes b)).drop (i * b)).take b = componentBytes b (vs.getD i 0) := by
  induction vs generalizing i with
  | nil => exact absurd hi (Nat.not_lt_zero _)
  | cons v vs ih =>
    rw [List.flatMap_cons]
    rcases i with - | i
    · rw [Nat.zero_mul, List.drop_zero, List.take_left' (length_componentBytes b v)]
      rfl
    · have hfront : (i + 1) * b = (componentBytes b v).length + i * b := by
        rw [length_componentBytes, Nat.succ_mul, Nat.add_comm]
      rw [hfront, ← List.drop_drop, List.drop_left, List.getD_cons_succ]
      exact ih (Nat.lt_of_succ_lt_succ hi)

/-- The values of pixels one behind the other. -/
theorem getD_flatten {pxs : List (List Nat)} (hlen : ∀ px ∈ pxs, px.length = channels) {k c : Nat}
    (hk : k < pxs.length) (hc : c < channels) :
    pxs.flatten.getD (k * channels + c) 0 = (pxs.getD k []).getD c 0 := by
  induction pxs generalizing k with
  | nil => exact absurd hk (Nat.not_lt_zero _)
  | cons px pxs ih =>
    have hpx := hlen px (List.mem_cons_self ..)
    rw [List.flatten_cons]
    rcases k with - | k
    · rw [Nat.zero_mul, Nat.zero_add, List.getD_append _ _ _ _ (by omega)]
      rfl
    · have hplace : (k + 1) * channels + c = px.length + (k * channels + c) := by
        rw [hpx, Nat.succ_mul]
        omega
      rw [hplace, List.getD_append_right _ _ _ _ (Nat.le_add_right _ _), Nat.add_sub_cancel_left,
        List.getD_cons_succ]
      exact ih (fun px hmem => hlen px (List.mem_cons_of_mem _ hmem)) (Nat.lt_of_succ_lt_succ hk)

theorem flatMap_pixelBytes (b : Nat) (pxs : List (List Nat)) :
    pxs.flatMap (pixelBytes b) = pxs.flatten.flatMap (componentBytes b) := by
  induction pxs with
  | nil => rfl
  | cons px pxs ih => rw [List.flatMap_cons, List.flatten_cons, List.flatMap_append, ih, pixelBytes]

theorem length_flatten_pixels {pxs : List (List Nat)} (hlen : ∀ px ∈ pxs, px.length = channels) :
    pxs.flatten.length = pxs.length * channels := by
  rw [List.length_flatten, List.map_congr_left hlen, List.map_const', List.sum_replicate_nat]

/-- The samples of a line that is stored pixel by pixel. -/
theorem sample_pixels {pxs : List (List Nat)} (hlen : ∀ px ∈ pxs, px.length = channels) {k c : Nat}
    (hk : k < pxs.length) (hc : c < channels) (hfits : (pxs.getD k []).getD c 0 < 256 ^ b) :
    sample b channels (pxs.flatMap (pixelBytes b)) k c = (pxs.getD k []).getD c 0 := by
  have hplace : k * channels + c < pxs.flatten.length := by
    have hmul : (k + 1) * channels ≤ pxs.length * channels := Nat.mul_le_mul_right _ hk
    rw [Nat.succ_mul] at hmul
    rw [length_flatten_pixels hlen]
    omega
  rw [sample, flatMap_pixelBytes, take_components hplace, getD_flatten hlen hk hc,
    componentValue_componentBytes hfits]

/-- Reading a pixel of a line. -/
theorem readPixel_eq_some {x : Nat} {px : List Nat} {rest : List SaneByte}
    (h : readPixel b channels (l.drop (x * (channels * b))) = some (px, rest)) :
    px = pixelOf b channels l x ∧ rest = l.drop ((x + 1) * (channels * b)) := by
  rw [readPixel] at h
  split_ifs at h with hshort
  cases h
  constructor
  · apply List.map_congr_left
    intro c hc
    rw [sample, List.drop_drop, ← Nat.mul_assoc, ← Nat.add_mul]
  · rw [List.drop_drop, Nat.succ_mul]

namespace Shrink

variable {p : Shrink} {k : Nat} {out rest : List SaneByte}

/-! ### Averages -/

/-- The sums of `n` pixels from pixel `x` on, as they are kept in `avg`. -/
def groupSums (p : Shrink) (l : List SaneByte) (x n : Nat) : List Nat :=
  (List.range p.channels).map fun c =>
    ((List.range n).map fun i => sample p.bytes p.channels l (x + i) c).sum % UINT

theorem groupSums_zero (p : Shrink) (l : List SaneByte) (x : Nat) :
    p.groupSums l x 0 = List.replicate p.channels 0 := by
  show (List.range p.channels).map (fun _ => 0) = _
  rw [List.map_const', List.length_range]

theorem groupSums_succ (p : Shrink) (l : List SaneByte) (x n : Nat) :
    List.zipWith (fun a v => (a + v) % UINT) (p.groupSums l x n)
      (pixelOf p.bytes p.channels l (x + n)) = p.groupSums l x (n + 1) := by
  rw [groupSums, pixelOf, List.zipWith_map, List.zipWith_self]
  apply List.map_congr_left
  intro c hc
  rw [List.range_succ, List.map_append, List.sum_append, Nat.mod_add_mod, List.map_singleton,
    List.sum_singleton]

/-- What has been gathered since pixel `x`. -/
structure Sums (p : Shrink) (l : List SaneByte) (x : Nat) (v : Averaging) : Prop where
  src : v.src = l.drop (v.srcX * p.pixelSize)
  le : v.srcX ≤ p.srcPixels
  count : v.srcX = x + v.count
  avg : v.avg = p.groupSums l x v.count

theorem gather_sums {turns x : Nat} {v v' : Averaging} (h : p.Sums l x v)
    (hv : p.gather turns v = some v') : p.Sums l x v' := by
  induction turns generalizing v with
  | zero =>
    cases hv
    exact h
  | succ turns ih =>
    rw [gather] at hv
    split_ifs at hv with hgo
    · cases hread : readPixel p.bytes p.channels v.src with
      | none =>
        rw [hread] at hv
        cases hv
      | some pixel =>
        obtain ⟨px, rest⟩ := pixel
        rw [hread] at hv
        rw [h.src] at hread
        obtain ⟨rfl, rfl⟩ := readPixel_eq_some hread
        refine ih ?_ hv
        refine ⟨rfl, hgo.2, ?_, ?_⟩
        · show v.srcX + 1 = x + (v.count + 1)
          rw [h.count, Nat.add_assoc]
        · show List.zipWith _ v.avg _ = p.groupSums l x (v.count + 1)
          rw [h.avg, h.count]
          exact groupSums_succ p l x v.count
    · cases hv
      exact h

/-- A pixel of the output is made of a group of consecutive pixels, of at most two if more
    than half of the pixels are left. -/
structure GroupMean (p : Shrink) (l : List SaneByte) (px : List Nat) (x n : Nat) : Prop where
  pos : 0 < n
  le : x + n ≤ p.srcPixels
  size : n * p.dstPixels < p.srcPixels + p.dstPixels
  value : px = (p.groupSums l x n).map fun a => a / n

theorem averagePixels_groups (hfit : p.srcPixels + p.dstPixels < UINT)
    (hshrink : p.dstPixels < p.srcPixels) {n : Nat} (hk : k + n = p.dstPixels) {v : Averaging}
    (h : p.Between k v) (hsrc : v.src = l.drop (v.srcX * p.pixelSize))
    (hv : p.averagePixels n v = some (out, rest)) :
    ∃ pxs : List (List Nat), pxs.length = n ∧ out = pxs.flatMap (pixelBytes p.bytes) ∧
      ∀ px ∈ pxs, ∃ x n, p.GroupMean l px x n := by
  induction n generalizing k v out with
  | zero =>
    cases hv
    exact ⟨[], rfl, rfl, fun px hpx => absurd hpx List.not_mem_nil⟩
  | succ n ih =>
    obtain ⟨v', hv', -, -, hpos, hgather, hwrap, hlt, -, hnext⟩ :=
      group_step hfit hshrink [] (by omega) h
    have hsums : p.Sums l v.srcX v' := gather_sums
      (v := { v with count := 0, avg := List.replicate p.channels 0 })
      ⟨hsrc, h.inside.srcX_le, rfl, (groupSums_zero p l v.srcX).symm⟩ hv'
    rw [averagePixels, hv'] at hv
    simp only [if_neg hpos, hwrap] at hv
    cases hmore : p.averagePixels n { v' with cnt := v'.cnt - p.srcPixels } with
    | none =>
      rw [hmore] at hv
      cases hv
    | some result =>
      obtain ⟨out', rest'⟩ := result
      rw [hmore] at hv
      cases hv
      obtain ⟨pxs, hlen, hout, hall⟩ := ih (by omega) hnext hsums.src hmore
      refine ⟨(v'.avg.map fun a => a / v'.count) :: pxs, ?_, ?_, ?_⟩
      · rw [List.length_cons, hlen]
      · rw [List.flatMap_cons, hout]
      · intro px hpx
        rcases List.mem_cons.mp hpx with rfl | hpx
        · refine ⟨v.srcX, v'.count, Nat.pos_of_ne_zero hpos, ?_, ?_, ?_⟩
          · rw [← hsums.count]
            exact hsums.le
          · rw [hsums.count, Nat.add_mul] at hgather
            omega
          · rw [hsums.avg]
        · exact hall px hpx

/-! ### Copies -/

theorem repeatPixel_copies (p : Shrink) (px : List Nat) (last : Bool) (turns cnt dstX : Nat) :
    ∃ m, (p.repeatPixel px last turns cnt dstX).1 =
      (List.replicate m px).flatMap (pixelBytes p.bytes) := by
  induction turns generalizing cnt dstX with
  | zero => exact ⟨0, rfl⟩
  | succ turns ih =>
    rw [repeatPixel]
    split_ifs
    · obtain ⟨m, hm⟩ := ih ((cnt + p.srcPixels) % UINT) (dstX + 1)
      refine ⟨m + 1, ?_⟩
      rw [List.replicate_succ, List.flatMap_cons, ← hm]
    · exact ⟨0, rfl⟩

theorem interpolatePixels_copies {n x cnt dstX : Nat} (hx : x + n = p.srcPixels)
    (hv : p.interpolatePixels n cnt dstX (l.drop (x * p.pixelSize)) = some (out, rest)) :
    ∃ pxs : List (List Nat), out = pxs.flatMap (pixelBytes p.bytes) ∧
      ∀ px ∈ pxs, ∃ x < p.srcPixels, px = pixelOf p.bytes p.channels l x := by
  induction n generalizing x cnt dstX out with
  | zero =>
    cases hv
    exact ⟨[], rfl, fun px hpx => absurd hpx List.not_mem_nil⟩
  | succ n ih =>
    rw [interpolatePixels] at hv
    cases hread : readPixel p.bytes p.channels (l.drop (x * p.pixelSize)) with
    | none =>
      rw [hread] at hv
      cases hv
    | some pixel =>
      obtain ⟨px, src⟩ := pixel
      rw [hread] at hv
      obtain ⟨rfl, rfl⟩ := readPixel_eq_some hread
      obtain ⟨m, hm⟩ := repeatPixel_copies p (pixelOf p.bytes p.channels l x) (n == 0)
        (p.dstPixels - dstX) cnt dstX
      dsimp only at hv
      split at hv
      · cases hv
      · rename_i more rest' hmore
        cases hv
        obtain ⟨pxs, hout, hall⟩ := ih (by omega) hmore
        refine ⟨List.replicate m (pixelOf p.bytes p.channels l x) ++ pxs, ?_, ?_⟩
        · rw [List.flatMap_append, hm, hout]
        · intro px hpx
          rcases List.mem_append.mp hpx with hpx | hpx
          · exact ⟨x, by omega, (List.mem_replicate.mp hpx).2⟩
          · exact hall px hpx

/-! ### Lines of 8 and 16 bits -/

/-- What the callers pass: components of one or two bytes, up to three channels, numbers of
    pixels that are ints. -/
structure Called (p : Shrink) : Prop where
  bytes : p.bytes = 1 ∨ p.bytes = 2
  channels : 0 < p.channels ∧ p.channels ≤ 3
  srcPixels : 0 < p.srcPixels ∧ p.srcPixels < 2 ^ 31
  dstPixels : 0 < p.dstPixels ∧ p.dstPixels < 2 ^ 31

/-- A turn of the loop over `y`. -/
def lineTurn (p : Shrink) (src : List SaneByte) : Option (List SaneByte × List SaneByte) :=
  if p.srcPixels > p.dstPixels then p.averageLine src else p.interpolateLine src

theorem shrinkLines_eq (p : Shrink) (lines : Nat) (src : List SaneByte) :
    shrinkLines p lines src = consumeLines p.lineTurn lines src := by
  unfold shrinkLines lineTurn
  split_ifs with hshrink
  · rfl
  · rfl

end Shrink

/-- Turns that use up their lines use up all lines. -/
theorem consumeLines_flatten {f : List SaneByte → Option (List SaneByte × List SaneByte)}
    {g : List SaneByte → List SaneByte} {line : Nat}
    (h : ∀ l more, l.length = line → f (l ++ more) = some (g l, more))
    {ls : List (List SaneByte)} (more : List SaneByte) (hls : ∀ l ∈ ls, l.length = line) :
    consumeLines f ls.length (ls.flatten ++ more) = some (ls.flatMap g) := by
  induction ls with
  | nil => rfl
  | cons l ls ih =>
    have hrest := ih fun l hl => hls l (List.mem_cons_of_mem _ hl)
    rw [List.length_cons, consumeLines, List.flatten_cons, List.append_assoc,
      h l _ (hls l (List.mem_cons_self ..)), List.flatMap_cons]
    simp only [Option.bind_eq_bind, Option.bind_some, hrest]

namespace Shrink

variable {p : Shrink} {out rest : List SaneByte}

/-- Averages of groups of pixels are averages of their samples. -/
theorem madeOf_averages (hp : p.Called) (hshrink : p.dstPixels < p.srcPixels)
    (hhalf : p.srcPixels / 2 < p.dstPixels) {pxs : List (List Nat)}
    (hlen : pxs.length = p.dstPixels) (hall : ∀ px ∈ pxs, ∃ x n, p.GroupMean l px x n) :
    MadeOf p.channels p.srcPixels p.dstPixels (sample p.bytes p.channels l)
      (sample p.bytes p.channels (pxs.flatMap (pixelBytes p.bytes))) := by
  refine ⟨?_, fun hle => absurd hshrink (Nat.not_lt_of_le hle)⟩
  intro _ k hk
  have hmem : pxs.getD k [] ∈ pxs := by
    rw [List.getD_eq_getElem _ _ (by omega)]
    exact List.getElem_mem _
  obtain ⟨x, n, hgroup⟩ := hall _ hmem
  have htwo : n ≤ 2 := by
    by_contra hmore
    have hmul : 3 * p.dstPixels ≤ n * p.dstPixels := Nat.mul_le_mul_right _ (by omega)
    have := hgroup.size
    omega
  refine ⟨x, n, hgroup.pos, hgroup.le, ?_⟩
  intro c hc
  have hbytes : 256 ^ p.bytes ≤ 65536 := by
    rcases hp.bytes with h | h <;> rw [h] <;> decide
  have hsum : ((List.range n).map fun i => sample p.bytes p.channels l (x + i) c).sum <
      n * 256 ^ p.bytes := by
    have hn := hgroup.pos
    have h0 := sample_lt p.bytes p.channels l (x + 0) c
    have h1 := sample_lt p.bytes p.channels l (x + 1) c
    interval_cases n
    · simpa using h0
    · simp only [List.range_succ, List.range_zero, List.nil_append, List.singleton_append,
        List.map_cons, List.map_nil, List.sum_cons, List.sum_nil]
      omega
  have hvalue : (pxs.getD k []).getD c 0 =
      ((List.range n).map fun i => sample p.bytes p.channels l (x + i) c).sum / n := by
    rw [hgroup.value, groupSums, List.map_map, List.getD_eq_getElem _ _ (by simpa using hc),
      List.getElem_map, List.getElem_range]
    show _ % UINT / n = _
    rw [Nat.mod_eq_of_lt]
    have hmul : n * 256 ^ p.bytes ≤ 2 * 65536 := Nat.mul_le_mul htwo hbytes
    have huint : 2 * 65536 < UINT := by decide
    omega
  have hpixels : ∀ px ∈ pxs, px.length = p.channels := by
    intro px hpx
    obtain ⟨x, n, hgroup⟩ := hall px hpx
    rw [hgroup.value, List.length_map, groupSums, List.length_map, List.length_range]
  rw [sample_pixels hpixels (by omega) hc, hvalue]
  rw [hvalue, Nat.div_lt_iff_lt_mul hgroup.pos, Nat.mul_comm]
  exact hsum

/-- The samples of copies of pixels. -/
theorem sample_copies {pxs : List (List Nat)}
    (hall : ∀ px ∈ pxs, ∃ x < p.srcPixels, px = pixelOf p.bytes p.channels l x) {k : Nat}
    (hk : k < pxs.length) : ∃ x < p.srcPixels, ∀ c < p.channels,
      sample p.bytes p.channels (pxs.flatMap (pixelBytes p.bytes)) k c =
        sample p.bytes p.channels l x c := by
  have hmem : pxs.getD k [] ∈ pxs := by
    rw [List.getD_eq_getElem _ _ hk]
    exact List.getElem_mem _
  obtain ⟨x, hx, hpx⟩ := hall _ hmem
  refine ⟨x, hx, ?_⟩
  intro c hc
  have hvalue : (pxs.getD k []).getD c 0 = sample p.bytes p.channels l x c := by
    rw [hpx, pixelOf, List.getD_eq_getElem _ _ (by simpa using hc), List.getElem_map,
      List.getElem_range]
  have hpixels : ∀ px ∈ pxs, px.length = p.channels := by
    intro px hpx
    obtain ⟨x, -, rfl⟩ := hall px hpx
    rw [pixelOf, List.length_map, List.length_range]
  rw [sample_pixels hpixels hk hc, hvalue]
  rw [hvalue]
  exact sample_lt ..

theorem madeOf_copies (hle : p.srcPixels ≤ p.dstPixels) {pxs : List (List Nat)}
    (hlen : pxs.length = p.dstPixels)
    (hall : ∀ px ∈ pxs, ∃ x < p.srcPixels, px = pixelOf p.bytes p.channels l x) :
    MadeOf p.channels p.srcPixels p.dstPixels (sample p.bytes p.channels l)
      (sample p.bytes p.channels (pxs.flatMap (pixelBytes p.bytes))) := by
  refine ⟨fun hshrink => absurd hshrink (Nat.not_lt_of_le hle), ?_⟩
  intro _ k hk
  exact sample_copies hall (by omega)

/-- How much of a line is used up by the pixels that are made of it. -/
theorem averagePixels_used (hfit : p.srcPixels + p.dstPixels < UINT)
    (hshrink : p.dstPixels < p.srcPixels) {n k : Nat} (hk : k + n = p.dstPixels) {v : Averaging}
    (h : p.Between k v) (hlast : n = 0 → v.cnt < p.dstPixels)
    (hv : p.averagePixels n v = some (out, rest)) :
    ∃ v', p.Between p.dstPixels v' ∧ v'.cnt < p.dstPixels ∧ rest = v'.src := by
  induction n generalizing k v out with
  | zero =>
    cases hv
    rw [Nat.add_zero] at hk
    exact ⟨v, hk ▸ h, hlast rfl, rfl⟩
  | succ n ih =>
    obtain ⟨v', hv', -, -, hpos, -, hwrap, -, hlt, hnext⟩ :=
      group_step hfit hshrink [] (by omega) h
    rw [averagePixels, hv'] at hv
    simp only [if_neg hpos, hwrap] at hv
    cases hmore : p.averagePixels n { v' with cnt := v'.cnt - p.srcPixels } with
    | none =>
      rw [hmore] at hv
      cases hv
    | some result =>
      obtain ⟨out', rest'⟩ := result
      rw [hmore] at hv
      cases hv
      exact ih (by omega) hnext (fun _ => hlt) hmore

/-- A line is used up only if more than half of the pixels are left. -/
theorem half_of_used (hsize : 0 < p.pixelSize) {v : Averaging}
    (h : p.Between p.dstPixels v) (hcnt : v.cnt < p.dstPixels) (hused : v.src = []) :
    p.srcPixels / 2 < p.dstPixels := by
  have hlen := h.inside.length_src
  have hle := h.inside.srcX_le
  have hsum := h.sum
  rw [hused, List.length_nil] at hlen
  rcases Nat.mul_eq_zero.mp hlen.symm with hzero | hzero
  · have hall : v.srcX = p.srcPixels := by omega
    rw [hall, Nat.mul_comm p.srcPixels] at hsum
    omega
  · omega

theorem pixelSize_pos (hp : p.Called) : 0 < p.pixelSize := by
  have hbytes : 0 < p.bytes := by
    have := hp.bytes
    omega
  exact Nat.mul_pos hp.channels.1 hbytes

/-- `genesys_shrink_lines_8` and `genesys_shrink_lines_16` act line by line. -/
def LinesAct (p : Shrink) : Prop :=
  ActsByLine (p.srcPixels * p.pixelSize) (p.dstPixels * p.pixelSize)
    (fun l out => MadeOf p.channels p.srcPixels p.dstPixels (sample p.bytes p.channels l)
      (sample p.bytes p.channels out))
    (fun _ : Unit => p.lineTurn) (shrinkLines p)

theorem Called.sum_lt (hp : p.Called) : p.srcPixels + p.dstPixels < UINT := by
  have hsrc := hp.srcPixels.2
  have hdst := hp.dstPixels.2
  have huint : UINT = 2 ^ 31 + 2 ^ 31 := by decide
  omega

theorem Called.fits (hp : p.Called) (hhalf : p.dstPixels < p.srcPixels →
    p.srcPixels / 2 < p.dstPixels) : p.Fits :=
  ⟨hp.srcPixels.1, hp.dstPixels.1, hp.sum_lt, hhalf⟩

/-- The samples of the line that is made. -/
theorem shrunk_madeOf (hp : p.Called) (hhalf : p.dstPixels < p.srcPixels →
    p.srcPixels / 2 < p.dstPixels) (hl : l.length = p.srcPixels * p.pixelSize) :
    MadeOf p.channels p.srcPixels p.dstPixels (sample p.bytes p.channels l)
      (sample p.bytes p.channels (p.shrunk l)) := by
  have hfits := hp.fits hhalf
  obtain ⟨hlen, hturn⟩ := shrunk_spec hfits hl []
  rw [List.append_nil] at hturn
  split_ifs at hturn with hshrink
  · obtain ⟨pxs, hpxs, hout, hall⟩ := averagePixels_groups hfits.sum_lt hshrink (Nat.zero_add _)
      (between_start hp.srcPixels.1 hl) (by rw [Nat.zero_mul]; rfl) hturn
    rw [hout]
    exact madeOf_averages hp hshrink (hhalf hshrink) hpxs hall
  · obtain ⟨pxs, hout, hall⟩ := interpolatePixels_copies (x := 0) (Nat.zero_add _)
      (by rw [Nat.zero_mul]; exact hturn)
    have hpixels : ∀ px ∈ pxs, px.length = p.channels := by
      intro px hpx
      obtain ⟨x, -, rfl⟩ := hall px hpx
      rw [pixelOf, List.length_map, List.length_range]
    have hpxs : pxs.length = p.dstPixels := by
      apply Nat.eq_of_mul_eq_mul_right (pixelSize_pos hp)
      have hcells : ∀ vs : List Nat, (vs.flatMap (componentBytes p.bytes)).length =
          vs.length * p.bytes := length_pixelBytes p.bytes
      rw [← hlen, hout, flatMap_pixelBytes, hcells, length_flatten_pixels hpixels, Nat.mul_assoc,
        pixelSize]
    rw [hout]
    exact madeOf_copies (Nat.le_of_not_lt hshrink) hpxs hall

/-- They do so if and only if they enlarge, or shrink to more than half of the pixels. -/
theorem linesAct_iff (hp : p.Called) : p.LinesAct ↔
    (p.dstPixels < p.srcPixels → p.srcPixels / 2 < p.dstPixels) := by
  constructor
  · rintro ⟨f, -, hturn, -⟩ hshrink
    have hl : (List.replicate (p.srcPixels * p.pixelSize) (0 : SaneByte)).length =
        p.srcPixels * p.pixelSize := List.length_replicate
    have hrun : p.lineTurn _ = _ := hturn () _ [] hl
    rw [List.append_nil, lineTurn, if_pos hshrink] at hrun
    obtain ⟨v, hv, hcnt, hrest⟩ := averagePixels_used hp.sum_lt hshrink (Nat.zero_add _)
      (between_start hp.srcPixels.1 hl) (fun h0 => absurd h0 hp.dstPixels.1.ne') hrun
    exact half_of_used (pixelSize_pos hp) hv hcnt hrest.symm
  · intro hhalf
    have hturn : ∀ l more, l.length = p.srcPixels * p.pixelSize →
        p.lineTurn (l ++ more) = some (p.shrunk l, more) :=
      fun l more hl => (shrunk_spec (hp.fits hhalf) hl more).2
    refine ⟨p.shrunk, ?_, fun _ => hturn, ?_⟩
    · intro l hl
      exact ⟨(shrunk_spec (hp.fits hhalf) hl []).1, shrunk_madeOf hp hhalf hl⟩
    · intro ls more hls
      rw [shrinkLines_eq]
      exact consumeLines_flatten hturn more hls

end Shrink

end SaneBackends.Genesys
