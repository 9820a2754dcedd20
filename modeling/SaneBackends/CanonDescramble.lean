import SaneBackends.CanonInterlace
import Mathlib.Tactic.IntervalCases

/-!
# Descrambling

Each layout of a line is an order of all its samples, but for the padding; the two sides of a block
are an order of all its bytes.  This needs whole lines: the loops do not look at the length of the
block inside a line.
-/

namespace SaneBackends.CanonInterlace

open DuplexSides FaultState Gather

namespace Scan

variable {s : Scan} {side : Side} {buf : List SaneByte} {i j len : Nat}

/-! ### The layouts of a line -/

/-- The places of a line in the order in which they are stored. -/
def samples (s : Scan) (side : Side) : List Nat :=
  if s.order side = [] then List.range s.bpl else s.order side

/-- The places of the padding. -/
def paddingPlaces (s : Scan) (side : Side) : List Nat :=
  if s.rgb = false then
    if s.grayInterlace.get side = .i2510 then
      (List.range (s.bpl / 12)).map fun k => s.bpl * 3 / 4 + k * 3
    else []
  else if s.colorInterlace.get side = .i2510 then
    ((List.range (s.bpl / 3 / 12)).map fun k => s.bpl / 4 + k * 3).flatMap (s.samplesOf side)
  else []

/-- The three read heads of the 2510 and its padding meet in a line without a gap. -/
def Aligned (s : Scan) (side : Side) : Prop :=
  (s.rgb = false → s.grayInterlace.get side = .i2510 → s.bpl ≤ 2 ∨ 12 ∣ s.bpl) ∧
    (s.rgb = true → s.colorInterlace.get side = .i2510 → s.width ≤ 2 ∨ 12 ∣ s.width)

/-- The layout is an order of the samples of a line, in colour pixel by pixel. -/
structure IsLayout (s : Scan) (side : Side) : Prop where
  perm : (s.samples side ++ s.paddingPlaces side).Perm (List.range s.bpl)
  padding : (s.paddingPlaces side).length = s.padding side
  pixels : s.rgb = true → ∃ pixels : List Nat, s.samples side = pixels.flatMap (s.samplesOf side)

theorem mem_countdown_one {n : Nat} : j ∈ countdown ((n : Int) - 1) 1 ↔ j < n := by
  rw [mem_countdown Nat.one_pos]
  constructor
  · rintro ⟨k, hk⟩
    omega
  · intro h
    exact ⟨n - 1 - j, by omega⟩

theorem length_samplesOf (s : Scan) (side : Side) (j : Nat) : (s.samplesOf side j).length = 3 := by
  rw [samplesOf]
  cases s.colorInterlace.get side with
  | _ => rfl

/-- Pixel by pixel from three parts of a line. -/
theorem perm_planes_iff {xs : List Nat} {w : Nat} :
    (xs.flatMap fun j => [j, w + j, 2 * w + j]).Perm (List.range (3 * w)) ↔
      xs.Perm (List.range w) := by
  have hlength : (xs.flatMap fun j => [j, w + j, 2 * w + j]).length = xs.length * 3 :=
    length_flatMap_const fun _ _ => rfl
  constructor
  · intro h
    refine perm_range (fun j hj => ?_) ?_
    · have hmem := h.mem_iff.mpr (List.mem_range.mpr (show j < 3 * w by omega))
      obtain ⟨p, hp, hj'⟩ := List.mem_flatMap.mp hmem
      simp only [List.mem_cons, List.not_mem_nil, or_false] at hj'
      have hpj : j = p := by omega
      rwa [hpj]
    · have hlen := h.length_eq
      rw [hlength, List.length_range] at hlen
      omega
  · intro h
    refine perm_range (fun j hj => ?_) ?_
    · have hmem : ∀ p < w, p ∈ xs := fun p hp => h.mem_iff.mpr (List.mem_range.mpr hp)
      rw [List.mem_flatMap]
      rcases Nat.lt_or_ge j w with hred | hred
      · exact ⟨j, hmem j hred, List.mem_cons_self⟩
      rcases Nat.lt_or_ge j (2 * w) with hgreen | hgreen
      · refine ⟨j - w, hmem _ (by omega), List.mem_cons_of_mem _ ?_⟩
        rw [Nat.add_sub_cancel' hred]
        exact List.mem_cons_self
      · refine ⟨j - 2 * w, hmem _ (by omega), ?_⟩
        rw [Nat.add_sub_cancel' hgreen]
        exact List.mem_cons_of_mem _ (List.mem_cons_of_mem _ List.mem_cons_self)
    · rw [hlength, h.length_eq, List.length_range, Nat.mul_comm]

/-- Pixel by pixel from triples. -/
theorem perm_triples {f : Nat → List Nat} {w : Nat}
    (hf : ∀ j, (f j).Perm [j * 3, j * 3 + 1, j * 3 + 2]) :
    ((List.range w).flatMap f).Perm (List.range (3 * w)) := by
  refine perm_range (fun j hj => ?_) ?_
  · rw [List.mem_flatMap]
    refine ⟨j / 3, List.mem_range.mpr (by omega), (hf (j / 3)).mem_iff.mpr ?_⟩
    have hcases : j = j / 3 * 3 ∨ j = j / 3 * 3 + 1 ∨ j = j / 3 * 3 + 2 := by omega
    rcases hcases with h | h | h
    · exact List.mem_cons.mpr (.inl h)
    · exact List.mem_cons_of_mem _ (List.mem_cons.mpr (.inl h))
    · exact List.mem_cons_of_mem _ (List.mem_cons_of_mem _ (List.mem_singleton.mpr h))
  · rw [length_flatMap_const (c := 3) fun j _ => (hf j).length_eq, List.length_range, Nat.mul_comm]

theorem range_three_mul (w : Nat) :
    List.range (3 * w) = (List.range w).flatMap fun j => [j * 3, j * 3 + 1, j * 3 + 2] := by
  induction w with
  | zero => rfl
  | succ w ih =>
    rw [List.range_succ, List.flatMap_append, ← ih, Nat.mul_succ, List.range_add, Nat.mul_comm 3 w]
    rfl

/-- The three read heads of the 2510 and its padding. -/
def heads (n : Nat) : List Nat :=
  countdown ((n : Int) - 1) 3 ++ countdown ((n * 3 / 4 : Nat) - 3) 3 ++
    countdown ((n : Int) - 2) 3 ++ (List.range (n / 12)).map fun k => n * 3 / 4 + k * 3

/-- What the second head and the padding read has the remainder of `n * 3 / 4`. -/
theorem mem_heads {n : Nat} (h : j ∈ heads n) :
    j % 3 = (n + 2) % 3 ∨ j % 3 = (n * 3 / 4) % 3 ∨ j % 3 = (n + 1) % 3 := by
  rw [heads, List.mem_append, List.mem_append, List.mem_append, mem_countdown (by decide),
    mem_countdown (by decide), mem_countdown (by decide), List.mem_map] at h
  rcases h with ((⟨k, hk⟩ | ⟨k, hk⟩) | ⟨k, hk⟩) | ⟨k, -, hk⟩ <;> omega

/-- A number by its remainder modulo 12. -/
theorem exists_mod_twelve (n : Nat) : ∃ q r, r < 12 ∧ n = 12 * q + r :=
  ⟨n / 12, n % 12, Nat.mod_lt n (by decide), (Nat.div_add_mod n 12).symm⟩

theorem length_heads_iff {n : Nat} (hpos : 0 < n) :
    (heads n).length = n ↔ n % 12 = 0 ∨ n % 12 = 1 ∨ n % 12 = 2 ∨ n % 12 = 4 ∨ n % 12 = 5 ∨
      n % 12 = 8 := by
  rw [heads, List.length_append, List.length_append, List.length_append, length_countdown,
    length_countdown, length_countdown, List.length_map, List.length_range]
  obtain ⟨q, r, hr, rfl⟩ := exists_mod_twelve n
  interval_cases r <;> omega

/-- In such a line nothing reads the first place of the remainder that the first and the third
    head leave. -/
theorem not_mem_heads {n : Nat}
    (hmod : n % 12 = 1 ∨ n % 12 = 2 ∨ n % 12 = 4 ∨ n % 12 = 5 ∨ n % 12 = 8) :
    n % 3 ∉ heads n := by
  intro h
  have h := mem_heads h
  omega

/-- They read every place of a line once if its length is a multiple of 12, or when it is so
    short that the second head reads nothing. -/
theorem perm_heads_iff {n : Nat} (hpos : 0 < n) :
    (heads n).Perm (List.range n) ↔ n ≤ 2 ∨ 12 ∣ n := by
  constructor
  · intro h
    have hlen := (length_heads_iff hpos).mp (h.length_eq.trans List.length_range)
    by_contra hnot
    have hmod : n % 12 = 1 ∨ n % 12 = 2 ∨ n % 12 = 4 ∨ n % 12 = 5 ∨ n % 12 = 8 := by omega
    exact not_mem_heads hmod (h.mem_iff.mpr (List.mem_range.mpr (by omega)))
  · intro h
    refine perm_range (fun j hj => ?_) ((length_heads_iff hpos).mpr (by omega))
    rw [heads, List.mem_append, List.mem_append, List.mem_append, mem_countdown (by decide),
      mem_countdown (by decide), mem_countdown (by decide), List.mem_map]
    by_cases hfirst : j % 3 = (n + 2) % 3
    · exact .inl (.inl (.inl ⟨(n - 1 - j) / 3, by omega⟩))
    by_cases hthird : j % 3 = (n + 1) % 3
    · exact .inl (.inr ⟨(n - 2 - j) / 3, by omega⟩)
    have hwhole : 12 ∣ n := by
      refine h.resolve_left fun hshort => ?_
      have hn : n = 1 ∨ n = 2 := by omega
      rcases hn with rfl | rfl <;> omega
    rcases Nat.lt_or_ge j (n * 3 / 4) with hlt | hge
    · exact .inl (.inl (.inr ⟨(n * 3 / 4 - 3 - j) / 3, by omega⟩))
    · exact .inr ⟨(j - n * 3 / 4) / 3, List.mem_range.mpr (by omega), by omega⟩

theorem width_pos (s : Scan) (h : s.rgb = true) : 0 < s.width := by
  have hpos := s.bpl_pos
  have hbpl := s.bpl_rgb h
  omega

theorem bpl_div_three (s : Scan) (h : s.rgb = true) : s.bpl / 3 = s.width := by
  rw [s.bpl_rgb h]
  omega

theorem countdown_ne_nil {start : Int} {step : Nat} (h : 0 ≤ start) (hstep : 0 < step) :
    countdown start step ≠ [] := by
  refine List.ne_nil_of_mem (a := start.toNat) ((mem_countdown hstep).mpr ⟨0, by omega⟩)

theorem flatMap_samplesOf_ne_nil {xs : List Nat} (h : xs ≠ []) :
    xs.flatMap (s.samplesOf side) ≠ [] := by
  intro hnil
  have hlen := length_flatMap_const (c := 3) fun j (_ : j ∈ xs) => s.length_samplesOf side j
  rw [hnil] at hlen
  have hpos := List.length_pos_iff.mpr h
  rw [List.length_nil] at hlen
  omega

theorem perm_countdown_one (n : Nat) : (countdown ((n : Int) - 1) 1).Perm (List.range n) := by
  refine perm_range (fun j hj => (mem_countdown_one).mpr hj) ?_
  rw [length_countdown]
  omega

theorem length_padding_pixels (s : Scan) (side : Side) (c d : Nat) :
    (((List.range c).map fun k => d + k * 3).flatMap (s.samplesOf side)).length = c * 3 := by
  rw [length_flatMap_const fun j _ => s.length_samplesOf side j, List.length_map, List.length_range]

theorem isLayout_gray (hrgb : s.rgb = false)
    (h : s.grayInterlace.get side ≠ .i2510) : s.IsLayout side := by
  have hpos := s.bpl_pos
  cases hgray : s.grayInterlace.get side with
  | none =>
    have horder : s.order side = [] := by rw [order, if_pos hrgb, hgray]
    have hplaces : s.paddingPlaces side = [] := by
      rw [paddingPlaces, if_pos hrgb, if_neg (by rw [hgray]; decide)]
    refine ⟨?_, ?_, fun h => absurd h (by rw [hrgb]; decide)⟩
    · rw [samples, if_pos horder, hplaces, List.append_nil]
    · rw [hplaces, padding, if_pos hrgb, if_neg (by rw [hgray]; decide)]
      rfl
  | gG =>
    have horder : s.order side = countdown (s.bpl - 1) 1 := by rw [order, if_pos hrgb, hgray]
    have hplaces : s.paddingPlaces side = [] := by
      rw [paddingPlaces, if_pos hrgb, if_neg (by rw [hgray]; decide)]
    refine ⟨?_, ?_, fun h => absurd h (by rw [hrgb]; decide)⟩
    · rw [samples, horder, if_neg (countdown_ne_nil (by omega) Nat.one_pos), hplaces,
        List.append_nil]
      exact perm_countdown_one s.bpl
    · rw [hplaces, padding, if_pos hrgb, if_neg (by rw [hgray]; decide)]
      rfl
  | i2510 => exact absurd hgray h

theorem isLayout_gray_i2510 (hrgb : s.rgb = false) (hgray : s.grayInterlace.get side = .i2510) :
    s.IsLayout side ↔ s.bpl ≤ 2 ∨ 12 ∣ s.bpl := by
  have hpos := s.bpl_pos
  have hne : s.order side ≠ [] := by
    rw [order, if_pos hrgb, hgray]
    intro hnil
    exact countdown_ne_nil (by omega) (by decide)
      (List.append_eq_nil_iff.mp (List.append_eq_nil_iff.mp hnil).1).1
  have hheads : s.samples side ++ s.paddingPlaces side = heads s.bpl := by
    rw [samples, if_neg hne, order, if_pos hrgb, hgray, paddingPlaces, if_pos hrgb, if_pos hgray]
    rfl
  have hpadding : (s.paddingPlaces side).length = s.padding side := by
    rw [paddingPlaces, if_pos hrgb, if_pos hgray, List.length_map, List.length_range, padding,
      if_pos hrgb, if_pos hgray]
  refine (Iff.intro (fun h => ?_) fun h => ?_).trans (perm_heads_iff hpos)
  · rw [← hheads]
    exact h.perm
  · exact ⟨by rw [hheads]; exact h, hpadding, fun h => absurd h (by rw [hrgb]; decide)⟩

theorem samples_color (hrgb : s.rgb = true) (hcolor : s.colorInterlace.get side ≠ .rgb)
    (hpixels : s.pixels side ≠ []) :
    s.samples side = (s.pixels side).flatMap (s.samplesOf side) := by
  have horder : s.order side = (s.pixels side).flatMap (s.samplesOf side) := by
    rw [order, if_neg (by rw [hrgb]; decide), if_neg hcolor]
  rw [samples, horder, if_neg (flatMap_samplesOf_ne_nil hpixels)]

theorem isLayout_color (hrgb : s.rgb = true)
    (h : s.colorInterlace.get side ≠ .i2510) : s.IsLayout side := by
  have hbpl := s.bpl_rgb hrgb
  have hwidth := s.width_pos hrgb
  have hrgb' : ¬ s.rgb = false := by rw [hrgb]; decide
  have hplaces : s.paddingPlaces side = [] := by rw [paddingPlaces, if_neg hrgb', if_neg h]
  have hzero : s.padding side = 0 := by rw [padding, if_neg hrgb', if_neg h]
  have hrange : List.range s.width ≠ [] :=
    List.ne_nil_of_mem (List.mem_range.mpr hwidth)
  cases hcolor : s.colorInterlace.get side with
  | rgb =>
    have hsamples : s.samples side = (List.range s.width).flatMap (s.samplesOf side) := by
      have horder : s.order side = [] := by rw [order, if_neg hrgb', if_pos hcolor]
      have hof : s.samplesOf side = fun j => [j * 3, j * 3 + 1, j * 3 + 2] := by
        funext j
        rw [samplesOf, hcolor]
      rw [samples, if_pos horder, hbpl, hof]
      exact range_three_mul s.width
    refine ⟨?_, by rw [hplaces, hzero]; rfl, fun _ => ⟨_, hsamples⟩⟩
    rw [hplaces, List.append_nil, samples, if_pos (by rw [order, if_neg hrgb', if_pos hcolor])]
  | bgr =>
    have hpixels : s.pixels side = List.range s.width := by rw [pixels, hcolor]
    have hsamples := samples_color hrgb (by rw [hcolor]; decide) (by rw [hpixels]; exact hrange)
    refine ⟨?_, by rw [hplaces, hzero]; rfl, fun _ => ⟨_, hsamples⟩⟩
    rw [hplaces, List.append_nil, hsamples, hpixels, hbpl]
    refine perm_triples fun j => ?_
    rw [samplesOf, hcolor]
    exact List.reverse_perm [j * 3, j * 3 + 1, j * 3 + 2]
  | rrggbb =>
    have hpixels : s.pixels side = List.range s.width := by rw [pixels, hcolor]
    have hof : s.samplesOf side = fun j => [j, s.width + j, 2 * s.width + j] := by
      funext j
      rw [samplesOf, hcolor]
    have hsamples := samples_color hrgb (by rw [hcolor]; decide) (by rw [hpixels]; exact hrange)
    refine ⟨?_, by rw [hplaces, hzero]; rfl, fun _ => ⟨_, hsamples⟩⟩
    rw [hplaces, List.append_nil, hsamples, hpixels, hbpl, hof]
    exact perm_planes_iff.mpr (List.Perm.refl _)
  | rRgGbB =>
    have hpixels : s.pixels side = countdown (s.width - 1) 1 := by rw [pixels, hcolor]
    have hof : s.samplesOf side = fun j => [j, s.width + j, 2 * s.width + j] := by
      funext j
      rw [samplesOf, hcolor]
    have hsamples := samples_color hrgb (by rw [hcolor]; decide)
      (by rw [hpixels]; exact countdown_ne_nil (by omega) Nat.one_pos)
    refine ⟨?_, by rw [hplaces, hzero]; rfl, fun _ => ⟨_, hsamples⟩⟩
    rw [hplaces, List.append_nil, hsamples, hpixels, hbpl, hof]
    exact perm_planes_iff.mpr (perm_countdown_one s.width)
  | i2510 => exact absurd hcolor h

theorem isLayout_color_i2510 (hrgb : s.rgb = true) (hcolor : s.colorInterlace.get side = .i2510) :
    s.IsLayout side ↔ s.width ≤ 2 ∨ 12 ∣ s.width := by
  have hbpl := s.bpl_rgb hrgb
  have hwidth := s.width_pos hrgb
  have hrgb' : ¬ s.rgb = false := by rw [hrgb]; decide
  have hthird : s.bpl / 3 = s.width := s.bpl_div_three hrgb
  have hquarter : s.bpl / 4 = s.width * 3 / 4 := by rw [hbpl, Nat.mul_comm]
  have hof : s.samplesOf side = fun j => [j, s.width + j, 2 * s.width + j] := by
    funext j
    rw [samplesOf, hcolor]
    simp only [hthird]
  have hpixels : s.pixels side = countdown ((s.width : Int) - 1) 3 ++
      countdown ((s.width * 3 / 4 : Nat) - 3) 3 ++ countdown ((s.width : Int) - 2) 3 := by
    rw [pixels, hcolor]
    simp only [hthird, hquarter]
  have hplaces : s.paddingPlaces side =
      ((List.range (s.width / 12)).map fun k => s.width * 3 / 4 + k * 3).flatMap
        (s.samplesOf side) := by
    rw [paddingPlaces, if_neg hrgb', if_pos hcolor, hthird, hquarter]
  have hsamples := samples_color hrgb (by rw [hcolor]; decide) (by
    rw [hpixels]
    intro hnil
    exact countdown_ne_nil (by omega) (by decide)
      (List.append_eq_nil_iff.mp (List.append_eq_nil_iff.mp hnil).1).1)
  have hheads : s.samples side ++ s.paddingPlaces side =
      (heads s.width).flatMap fun j => [j, s.width + j, 2 * s.width + j] := by
    rw [hsamples, hplaces, ← List.flatMap_append, hpixels, hof]
    rfl
  have hperm : (s.samples side ++ s.paddingPlaces side).Perm (List.range s.bpl) ↔
      s.width ≤ 2 ∨ 12 ∣ s.width := by
    rw [hheads, hbpl]
    exact perm_planes_iff.trans (perm_heads_iff hwidth)
  refine ⟨fun h => hperm.mp h.perm, fun h => ⟨hperm.mpr h, ?_, fun _ => ⟨_, hsamples⟩⟩⟩
  rw [hplaces, length_padding_pixels, padding, if_neg hrgb', if_pos hcolor]
  omega

/-- Every layout is an order of the samples, those of the 2510 for lines of such widths only. -/
theorem isLayout_iff : s.IsLayout side ↔ s.Aligned side := by
  cases hrgb : s.rgb with
  | false =>
    have hcolor : s.rgb = true → s.colorInterlace.get side = .i2510 →
        s.width ≤ 2 ∨ 12 ∣ s.width := fun h => absurd h (by rw [hrgb]; decide)
    by_cases hgray : s.grayInterlace.get side = .i2510
    · rw [isLayout_gray_i2510 hrgb hgray]
      exact ⟨fun h => ⟨fun _ _ => h, hcolor⟩, fun h => h.1 hrgb hgray⟩
    · exact ⟨fun _ => ⟨fun _ h => absurd h hgray, hcolor⟩, fun _ => isLayout_gray hrgb hgray⟩
  | true =>
    have hgray : s.rgb = false → s.grayInterlace.get side = .i2510 →
        s.bpl ≤ 2 ∨ 12 ∣ s.bpl := fun h => absurd h (by rw [hrgb]; decide)
    by_cases hcolor : s.colorInterlace.get side = .i2510
    · rw [isLayout_color_i2510 hrgb hcolor]
      exact ⟨fun h => ⟨hgray, fun _ _ => h⟩, fun h => h.2 hrgb hcolor⟩
    · exact ⟨fun _ => ⟨hgray, fun _ h => absurd h hcolor⟩, fun _ => isLayout_color hrgb hcolor⟩

end Scan

end SaneBackends.CanonInterlace
