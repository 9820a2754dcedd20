import SaneBackends.Interleave
import SaneBackends.PixmaMp150Check

/-!
# The order of the pixels of an MP150 line

For every scan that passes the checks the segments of a raw line have the same width, so
`reorder_pixels` is a permutation of the pixels.
-/

namespace SaneBackends.Pixma

open InPlace Interleave Overwrite

/-- Each pixel of a line is written to one place, and each group of `n` places takes one pixel of
    each of the `n` segments. -/
structure Permutes (n m wx : Nat) : Prop where
  whole : n * m = wx
  bijOn : Set.BijOn (fun i => n * (i % m) + i / m) (Set.Iio wx) (Set.Iio wx)
  segment : ∀ g < m, ∀ r, n * ((r * m + g) % m) + (r * m + g) / m = n * g + r

theorem permutes_of_dvd {n wx : Nat} (h : n ∣ wx) : Permutes n (wx / n) wx where
  whole := Nat.mul_div_cancel' h
  bijOn := bijOn_place (Nat.mul_div_cancel' h)
  segment := fun _ hg _ => place_segment hg

/-! ### Resolutions -/

/-- The resolutions that `pixma_check_dpi` lets through. -/
def Resolution (dpi : Nat) : Prop := ∃ j ≤ 6, dpi = 75 * 2 ^ j

theorem resolution_of_check {dpi max : Nat} (hmax : max ≤ 4800)
    (h : PixmaConfig.pixmaCheckDpi dpi max = true) : Resolution dpi := by
  have hpowers : ∀ t < 65, t ≠ 0 → t &&& (t - 1) = 0 → ∃ j ≤ 6, t = 2 ^ j := by decide
  simp only [PixmaConfig.pixmaCheckDpi, Bool.not_eq_true', Bool.or_eq_false_iff,
    decide_eq_false_iff_not, Decidable.not_not] at h
  obtain ⟨⟨⟨hle, hge⟩, hdvd⟩, hpower⟩ := h
  obtain ⟨j, hj, ht⟩ := hpowers (dpi / 75) (by omega) (by omega) hpower
  exact ⟨j, hj, by rw [← ht]; exact hdvd.symm⟩

namespace PixmaConfig

variable {cfg : PixmaConfig} {sp p : ScanParam}

theorem xdpi_le (h : cfg ∈ pixmaMp150Devices) : cfg.xdpi ≤ 4800 ∧ cfg.extMaxDpi = 0 := by
  have hall : ∀ d ∈ pixmaMp150Devices, d.xdpi ≤ 4800 ∧ d.extMaxDpi = 0 := by decide
  exact hall cfg h

theorem width_eq (h : cfg ∈ pixmaMp150Devices) : cfg.width = 638 ∧ 75 ≤ cfg.xdpi := by
  have hall : ∀ d ∈ pixmaMp150Devices, d.width = 638 ∧ 75 ≤ d.xdpi := by decide
  exact hall cfg h

theorem cfgXdpi_le (h : cfg ∈ pixmaMp150Devices) (source : Source) :
    cfg.cfgXdpi source ≤ 4800 := by
  obtain ⟨hxdpi, hext⟩ := xdpi_le h
  rw [cfgXdpi, if_pos (.inr hext)]
  exact hxdpi

theorem generation_of_mp600 (h : cfg.pid = MP600_PID ∨ cfg.pid = MP600R_PID) :
    cfg.generation = 2 := by
  rw [generation]
  rcases h with h | h
  · rw [h]
    rfl
  · rw [h]
    rfl

/-- The alignment of the raw width. -/
def align (cfg : PixmaConfig) : Nat := if 2 ≤ cfg.generation then 32 else 4

theorem align_dvd (sp : ScanParam) : cfg.align ∣ cfg.calcRawWidth sp := by
  rw [align, calcRawWidth]
  split
  · exact Nat.dvd_mul_left _ _
  · split
    · exact Nat.dvd_mul_left_of_dvd (by decide) _
    · exact Nat.dvd_mul_left _ _

theorem n_dvd_align (h : Resolution p.xdpi) (hn : 0 < cfg.n p) : cfg.n p ∣ cfg.align := by
  obtain ⟨j, hj, hxdpi⟩ := h
  rw [n, hxdpi] at hn ⊢
  by_cases hpid : cfg.pid = MP600_PID ∨ cfg.pid = MP600R_PID
  · rw [if_pos hpid] at hn ⊢
    rw [align, generation_of_mp600 hpid]
    interval_cases j <;> simp at hn ⊢
  · rw [if_neg hpid] at hn ⊢
    rw [align]
    by_cases hgen : 3 ≤ cfg.generation
    · rw [if_pos hgen] at hn ⊢
      rw [if_pos (by omega)]
      interval_cases j <;> simp at hn ⊢
    · rw [if_neg hgen] at hn ⊢
      interval_cases j <;> (split <;> simp at hn ⊢)

/-! ### The checks -/

/-- The parameters before the resolution is adapted to the source. -/
def sized (cfg : PixmaConfig) (sp : ScanParam) : ScanParam := cfg.checkSize (cfg.checkDepth sp)

theorem checkDepth_xdpi : (cfg.checkDepth sp).xdpi = sp.xdpi := by
  rw [checkDepth]
  split <;> rfl

theorem checkDepth_source : (cfg.checkDepth sp).source = sp.source := by
  rw [checkDepth]
  split <;> rfl

theorem checkSize_eq (sp : ScanParam) :
    (cfg.checkSize sp).xdpi = sp.xdpi ∧ (cfg.checkSize sp).source = sp.source ∧
      (cfg.checkSize sp).w = sp.w ∧ (cfg.checkSize sp).channels = sp.channels ∧
      (cfg.checkSize sp).depth = sp.depth ∧
      (cfg.checkSize sp).softwareLineart = sp.softwareLineart ∧
      (cfg.checkSize sp).lineSize =
        sp.w * sp.channels * ((if sp.softwareLineart then 8 else sp.depth) / 8) := by
  unfold checkSize
  dsimp only
  split_ifs <;> exact ⟨rfl, rfl, rfl, rfl, rfl, rfl, rfl⟩

theorem align_dvd_checkSize (sp : ScanParam) : cfg.align ∣ (cfg.checkSize sp).wx := by
  unfold checkSize
  dsimp only
  split_ifs <;> exact align_dvd _

theorem sized_xdpi : (cfg.sized sp).xdpi = sp.xdpi := by
  rw [sized, (checkSize_eq _).1, checkDepth_xdpi]

theorem resolution_sized (h : Resolution sp.xdpi) : Resolution (cfg.sized sp).xdpi := by
  rw [sized_xdpi]
  exact h

theorem sized_source : (cfg.sized sp).source = sp.source := by
  rw [sized, (checkSize_eq _).2.1, checkDepth_source]

/-- What the adaption to the source leaves. -/
structure SameLine (p s : ScanParam) : Prop where
  lineSize : p.lineSize = s.lineSize
  channels : p.channels = s.channels
  depth : p.depth = s.depth
  softwareLineart : p.softwareLineart = s.softwareLineart
  xdpi : p.xdpi = s.xdpi
  w : p.w = s.w
  wx : p.wx = s.wx
  x : p.x = s.x
  xs : p.xs = s.xs
  source : p.source = s.source

/-- A scan whose resolution the source has. -/
def Suitable (cfg : PixmaConfig) (sp : ScanParam) : Prop :=
  (sp.source = .tpu → 150 ≤ sp.xdpi ∧ (3 ≤ cfg.generation → 300 ≤ sp.xdpi)) ∧
    (sp.source = .adf ∨ sp.source = .adfdup → 4 ≤ cfg.generation → sp.xdpi ≤ 600)

theorem checkTpu_source : (cfg.checkTpu sp).source = sp.source := by
  unfold checkTpu
  dsimp only
  split_ifs <;> rfl

theorem checkAdf_source : (cfg.checkAdf sp).source = sp.source := by
  unfold checkAdf
  dsimp only
  split_ifs <;> rfl

/-- A resolution that the source has is not changed. -/
theorem checkTpu_same (hpos : 0 < sp.xdpi)
    (h : sp.source = .tpu → 150 ≤ sp.xdpi ∧ (3 ≤ cfg.generation → 300 ≤ sp.xdpi)) :
    SameLine (cfg.checkTpu sp) sp := by
  unfold checkTpu
  dsimp only
  by_cases htpu : sp.source = .tpu
  · obtain ⟨hmin, hmin'⟩ := h htpu
    have hk : (if 3 ≤ cfg.generation then max sp.xdpi 300 / sp.xdpi
        else max sp.xdpi 150 / sp.xdpi) = 1 := by
      split
      · rename_i hgen
        rw [Nat.max_eq_left (hmin' hgen), Nat.div_self hpos]
      · rw [Nat.max_eq_left hmin, Nat.div_self hpos]
    simp only [if_pos htpu, hk, Nat.mod_eq_of_lt (by decide : 1 < 256), Nat.mul_one]
    exact ⟨rfl, rfl, rfl, rfl, rfl, rfl, rfl, rfl, rfl, rfl⟩
  · rw [if_neg htpu]
    exact ⟨rfl, rfl, rfl, rfl, rfl, rfl, rfl, rfl, rfl, rfl⟩

theorem checkAdf_same (hpos : 0 < sp.xdpi)
    (h : sp.source = .adf ∨ sp.source = .adfdup → 4 ≤ cfg.generation → sp.xdpi ≤ 600) :
    SameLine (cfg.checkAdf sp) sp := by
  unfold checkAdf
  dsimp only
  by_cases hadf : sp.source = .adf ∨ sp.source = .adfdup
  · have hk : (if 4 ≤ cfg.generation then sp.xdpi / min sp.xdpi 600 % 256 else 1) = 1 := by
      split
      · rename_i hgen
        rw [Nat.min_eq_left (h hadf hgen), Nat.div_self hpos]
      · rfl
    simp only [if_pos hadf, hk, Nat.div_one]
    exact ⟨rfl, rfl, rfl, rfl, rfl, rfl, rfl, rfl, rfl, rfl⟩
  · rw [if_neg hadf]
    exact ⟨rfl, rfl, rfl, rfl, rfl, rfl, rfl, rfl, rfl, rfl⟩

theorem resolution_pos {dpi : Nat} (h : Resolution dpi) : 0 < dpi := by
  obtain ⟨j, -, rfl⟩ := h
  exact Nat.mul_pos (by decide) (Nat.two_pow_pos j)

/-- A transparency is scanned as it is, or with the smallest resolution. -/
theorem checkTpu_cases (h : Resolution sp.xdpi) :
    SameLine (cfg.checkTpu sp) sp ∧
        (sp.source = .tpu → 150 ≤ sp.xdpi ∧ (3 ≤ cfg.generation → 300 ≤ sp.xdpi)) ∨
      (cfg.checkTpu sp).xdpi = if 3 ≤ cfg.generation then 300 else 150 := by
  by_cases hsuit : sp.source = .tpu → 150 ≤ sp.xdpi ∧ (3 ≤ cfg.generation → 300 ≤ sp.xdpi)
  · exact .inl ⟨checkTpu_same (resolution_pos h) hsuit, hsuit⟩
  · right
    obtain ⟨htpu, hlow⟩ := Classical.not_imp.mp hsuit
    obtain ⟨j, hj, hxdpi⟩ := h
    unfold checkTpu
    simp only [if_pos htpu]
    by_cases hgen : 3 ≤ cfg.generation
    · have hlt : j < 2 := by
        by_contra hge
        refine hlow ?_
        rw [hxdpi]
        interval_cases j <;> simp at hge ⊢
      rw [if_pos hgen, if_pos hgen, hxdpi]
      interval_cases j
      · rfl
      · rfl
    · have hlt : j < 1 := by
        by_contra hge
        refine hlow ?_
        rw [hxdpi]
        interval_cases j <;> simp [hgen] at hge ⊢
      rw [if_neg hgen, if_neg hgen, hxdpi]
      interval_cases j
      rfl

/-- A sheet is scanned as it is, or with 600 dpi. -/
theorem checkAdf_cases (h : Resolution sp.xdpi) :
    SameLine (cfg.checkAdf sp) sp ∧
        (sp.source = .adf ∨ sp.source = .adfdup → 4 ≤ cfg.generation → sp.xdpi ≤ 600) ∨
      4 ≤ cfg.generation ∧ (cfg.checkAdf sp).xdpi = 600 := by
  by_cases hsuit : sp.source = .adf ∨ sp.source = .adfdup → 4 ≤ cfg.generation → sp.xdpi ≤ 600
  · exact .inl ⟨checkAdf_same (resolution_pos h) hsuit, hsuit⟩
  · right
    obtain ⟨hadf, hlow⟩ := Classical.not_imp.mp hsuit
    obtain ⟨hgen, hhigh⟩ := Classical.not_imp.mp hlow
    refine ⟨hgen, ?_⟩
    obtain ⟨j, hj, hxdpi⟩ := h
    unfold checkAdf
    simp only [if_pos hadf, if_pos hgen]
    rw [hxdpi] at hhigh ⊢
    interval_cases j <;> simp at hhigh ⊢

theorem checkAdf_of_tpu (h : sp.source = .tpu) : cfg.checkAdf sp = sp := by
  rw [checkAdf, if_neg (by rw [h]; decide)]

theorem n_congr {s : ScanParam} (h : p.xdpi = s.xdpi) : cfg.n p = cfg.n s := by
  rw [n, n, h]

theorem SameLine.trans {s t : ScanParam} (h : SameLine p s) (h' : SameLine s t) : SameLine p t :=
  ⟨h.lineSize.trans h'.lineSize, h.channels.trans h'.channels, h.depth.trans h'.depth,
    h.softwareLineart.trans h'.softwareLineart, h.xdpi.trans h'.xdpi, h.w.trans h'.w,
    h.wx.trans h'.wx, h.x.trans h'.x, h.xs.trans h'.xs, h.source.trans h'.source⟩

theorem mp150CheckParam_source : (cfg.mp150CheckParam sp).source = sp.source := by
  rw [mp150CheckParam, checkAdf_source, checkTpu_source, ← sized, sized_source]

theorem mp150CheckParam_of_tpu (h : sp.source = .tpu) :
    cfg.mp150CheckParam sp = cfg.checkTpu (cfg.sized sp) := by
  rw [mp150CheckParam, ← sized, checkAdf_of_tpu (by rw [checkTpu_source, sized_source, h])]

/-- The parameters that a call of `mp150_check_param` leaves: as they are sized, with the smallest
    resolution of a transparency, or with the largest one of a sheet. -/
theorem mp150CheckParam_cases (h : Resolution sp.xdpi) :
    SameLine (cfg.mp150CheckParam sp) (cfg.sized sp) ∧ cfg.Suitable sp ∨
      ((cfg.mp150CheckParam sp).xdpi = if 3 ≤ cfg.generation then 300 else 150) ∨
      4 ≤ cfg.generation ∧ (cfg.mp150CheckParam sp).xdpi = 600 := by
  have hsized := @resolution_sized cfg _ h
  by_cases htpu : sp.source = .tpu
  · rw [mp150CheckParam_of_tpu htpu]
    rcases @checkTpu_cases cfg _ hsized with ⟨hsame, hsuit⟩ | hsmall
    · rw [sized_source, sized_xdpi] at hsuit
      refine .inl ⟨hsame, hsuit, fun hadf => ?_⟩
      rw [htpu] at hadf
      rcases hadf with hadf | hadf <;> cases hadf
    · exact .inr (.inl hsmall)
  · have hsame : cfg.checkTpu (cfg.sized sp) = cfg.sized sp := by
      rw [checkTpu, if_neg (by rw [sized_source]; exact htpu)]
    rw [mp150CheckParam, ← sized, hsame]
    rcases @checkAdf_cases cfg _ hsized with ⟨hsame, hsuit⟩ | hlarge
    · rw [sized_source, sized_xdpi] at hsuit
      exact .inl ⟨hsame, fun h => absurd h htpu, hsuit⟩
    · exact .inr (.inr hlarge)

/-- One call suffices for a raw width that the segments divide. -/
theorem n_dvd_wx (h : Resolution sp.xdpi) (hn : 0 < cfg.n (cfg.mp150CheckParam sp)) :
    cfg.n (cfg.mp150CheckParam sp) ∣ (cfg.mp150CheckParam sp).wx := by
  rcases @mp150CheckParam_cases cfg _ h with ⟨hsame, -⟩ | hsmall | ⟨hgen, h600⟩
  · rw [n_congr hsame.xdpi] at hn ⊢
    rw [hsame.wx]
    exact Nat.dvd_trans (n_dvd_align (resolution_sized h) hn) (align_dvd_checkSize _)
  · exfalso
    rw [n, hsmall] at hn
    split_ifs at hn <;> exact absurd hn (by decide)
  · have hpid : ¬ (cfg.pid = MP600_PID ∨ cfg.pid = MP600R_PID) := by
      intro hpid
      rw [generation_of_mp600 hpid] at hgen
      exact absurd hgen (by decide)
    rw [n, if_neg hpid, if_pos (by omega), h600]
    exact Nat.one_dvd _

/-- After a first call the resolution is one that the source has. -/
theorem suitable_mp150CheckParam (h : Resolution sp.xdpi) :
    Resolution (cfg.mp150CheckParam sp).xdpi ∧ cfg.Suitable (cfg.mp150CheckParam sp) := by
  rcases @mp150CheckParam_cases cfg _ h with ⟨hsame, hsuit⟩ | hsmall | ⟨hgen, h600⟩
  · rw [Suitable, hsame.xdpi, mp150CheckParam_source, sized_xdpi]
    exact ⟨h, hsuit⟩
  · rw [Suitable, hsmall]
    split
    · exact ⟨⟨2, by decide, rfl⟩, fun _ => ⟨by decide, fun _ => Nat.le_refl _⟩,
        fun _ _ => by decide⟩
    · rename_i hgen
      exact ⟨⟨1, by decide, rfl⟩, fun _ => ⟨Nat.le_refl _, fun h => absurd h hgen⟩,
        fun _ _ => by decide⟩
  · rw [Suitable, h600]
    exact ⟨⟨3, by decide, rfl⟩, fun _ => ⟨by decide, fun _ => by decide⟩, fun _ _ => Nat.le_refl _⟩

/-- A second call does not adapt the resolution again. -/
theorem mp150CheckParam_same (h : Resolution sp.xdpi) (hsuit : cfg.Suitable sp) :
    SameLine (cfg.mp150CheckParam sp) (cfg.sized sp) := by
  have htpu : SameLine (cfg.checkTpu (cfg.sized sp)) (cfg.sized sp) := by
    refine checkTpu_same (by rw [sized_xdpi]; exact resolution_pos h) ?_
    rw [sized_source, sized_xdpi]
    exact hsuit.1
  have hadf : SameLine (cfg.checkAdf (cfg.checkTpu (cfg.sized sp)))
      (cfg.checkTpu (cfg.sized sp)) := by
    refine checkAdf_same (by rw [htpu.xdpi, sized_xdpi]; exact resolution_pos h) ?_
    rw [checkTpu_source, sized_source, htpu.xdpi, sized_xdpi]
    exact hsuit.2
  exact hadf.trans htpu

/-! ### The two calls -/

theorem checkDepth_w_pos (hcfg : cfg ∈ pixmaMp150Devices) (hw : 0 < sp.w) :
    0 < (cfg.checkDepth sp).w := by
  obtain ⟨hwidth, hmin⟩ := width_eq hcfg
  rw [checkDepth]
  split
  · exact hw
  · dsimp only
    split
    · rw [hwidth]
      have hmax : 638 ≤ 638 * cfg.xdpi / 75 := by
        rw [Nat.le_div_iff_mul_le (by decide)]
        exact Nat.mul_le_mul_left 638 hmin
      omega
    · exact hw

theorem checkDepth_cases (h : sp.channels = 1 ∨ sp.channels = 3) :
    (cfg.checkDepth sp).softwareLineart = true ∧ (cfg.checkDepth sp).channels = 1 ∨
      (cfg.checkDepth sp).softwareLineart = false ∧
        ((cfg.checkDepth sp).channels = 1 ∨ (cfg.checkDepth sp).channels = 3) ∧
        ((cfg.checkDepth sp).depth = 8 ∨ (cfg.checkDepth sp).depth = 16) := by
  rw [checkDepth]
  split
  · right
    refine ⟨rfl, h, ?_⟩
    dsimp only
    split
    · exact .inr rfl
    · exact .inl rfl
  · exact .inl ⟨rfl, rfl⟩

theorem checkSize_wx_pos (h : 0 < sp.w) : 0 < (cfg.checkSize sp).wx := by
  have hraw : ∀ q : ScanParam, 0 < q.w → 0 < cfg.calcRawWidth q := by
    intro q hq
    have hle : ∀ a, 0 < a → 0 < ALIGN_SUP (q.w + q.xs) a := by
      intro a ha
      have := @le_ALIGN_SUP (q.w + q.xs) a ha
      omega
    rw [calcRawWidth]
    split_ifs
    · exact hle 32 (by decide)
    · exact hle 12 (by decide)
    · exact hle 4 (by decide)
  unfold checkSize
  dsimp only
  split_ifs <;> exact hraw _ h

/-- A sensor with three colours scans gray lines with all of them. -/
theorem bytes_eq {gray : Bool} {channels depth : Nat} (hgray : gray = true → channels = 1)
    (hdepth : depth = 8 ∨ depth = 16) :
    channels * (depth / 8) * (if gray then 3 else 1) =
      (if gray then 3 else channels) * depth / 8 := by
  have hbytes : depth = depth / 8 * 8 := by omega
  rw [hbytes, Nat.mul_div_cancel _ (by decide), ← Nat.mul_assoc, Nat.mul_div_cancel _ (by decide)]
  cases gray with
  | false => exact Nat.mul_one _
  | true =>
    rw [hgray rfl, Nat.one_mul]
    exact Nat.mul_comm _ _

/-- A line as it is sized: its bytes are those of its pixels. -/
theorem getCisCcdLineSize_sized (hcfg : cfg ∈ pixmaMp150Devices) (hw : 0 < sp.w)
    (hchannels : sp.channels = 1 ∨ sp.channels = 3) :
    cfg.getCisCcdLineSize (cfg.sized sp) = (cfg.sized sp).wx * cfg.c (cfg.sized sp) ∧
      0 < (cfg.sized sp).lineSize := by
  obtain ⟨-, -, hwidth, hch, hdepth, hlineart, hline⟩ := checkSize_eq (cfg.checkDepth sp)
  have hpos := checkDepth_w_pos hcfg hw
  have hwx := @checkSize_wx_pos cfg _ hpos
  have hbytes : (if (cfg.checkDepth sp).softwareLineart = true then 8
      else (cfg.checkDepth sp).depth) = 8 ∨ (if (cfg.checkDepth sp).softwareLineart = true then 8
      else (cfg.checkDepth sp).depth) = 16 := by
    rcases checkDepth_cases hchannels with ⟨hl, -⟩ | ⟨hl, -, hd⟩
    · rw [hl]
      exact .inl rfl
    · rw [hl]
      exact hd
  have hone : 0 < (cfg.checkDepth sp).channels := by
    rcases checkDepth_cases hchannels with ⟨-, hc⟩ | ⟨-, hc | hc, -⟩ <;> rw [hc] <;> decide
  have hgray : (cfg.isCcdGrayscale (cfg.sized sp) || cfg.isCcdLineart (cfg.sized sp)) = true →
      (cfg.checkDepth sp).channels = 1 := by
    rw [isCcdGrayscale, isCcdLineart, sized, hch, hlineart]
    rcases checkDepth_cases hchannels with ⟨hl, hc⟩ | ⟨hl, -, -⟩
    · exact fun _ => hc
    · rw [hl]
      intro h
      have hboth : cfg.hasCcdSensor = true ∧ (cfg.checkDepth sp).channels = 1 := by simpa using h
      exact hboth.2
  constructor
  · rw [getCisCcdLineSize, c, if_pos (by rw [sized]; exact hwx.ne')]
    generalize (cfg.isCcdGrayscale (cfg.sized sp) || cfg.isCcdLineart (cfg.sized sp)) = gray
      at hgray
    rw [sized, hwidth, hch, hdepth, hlineart, hline, Nat.mul_assoc (cfg.checkDepth sp).w,
      Nat.mul_div_cancel_left _ hpos, ← bytes_eq hgray hbytes]
    ring
  · rw [sized, hline]
    refine Nat.mul_pos (Nat.mul_pos hpos hone) ?_
    omega

theorem checkDepth_channels (h : sp.channels = 1 ∨ sp.channels = 3) :
    (cfg.checkDepth sp).channels = 1 ∨ (cfg.checkDepth sp).channels = 3 := by
  rcases checkDepth_cases h with ⟨-, hc⟩ | ⟨-, hc, -⟩
  · exact .inl hc
  · exact hc

theorem mp150CheckParam_channels :
    (cfg.mp150CheckParam sp).channels = (cfg.checkDepth sp).channels := by
  have htpu : ∀ q, (cfg.checkTpu q).channels = q.channels := by
    intro q
    unfold checkTpu
    dsimp only
    split_ifs <;> rfl
  have hadf : ∀ q, (cfg.checkAdf q).channels = q.channels := by
    intro q
    unfold checkAdf
    dsimp only
    split_ifs <;> rfl
  rw [mp150CheckParam, hadf, htpu, (checkSize_eq _).2.2.2.1]

theorem clampParam_w_pos : 0 < (cfg.clampParam sp).w := by
  have hw : ∀ x w maximum dpi, 0 < (CLAMP2 x w 13 maximum dpi).2 := by
    intro x w maximum dpi
    rw [CLAMP2]
    dsimp only
    split
    · decide
    · omega
  exact hw _ _ _ _

theorem checkSource_tpu {source : Source} (h : cfg.checkSource source = .tpu) : source = .tpu := by
  cases source with
  | tpu => rfl
  | flatbed => cases h
  | adf =>
    rw [checkSource] at h
    split at h <;> cases h
  | adfdup =>
    rw [checkSource] at h
    split_ifs at h

theorem checkSource_adf {source : Source}
    (h : cfg.checkSource source = .adf ∨ cfg.checkSource source = .adfdup) :
    source = .adf ∨ source = .adfdup := by
  cases source with
  | adf => exact .inl rfl
  | adfdup => exact .inr rfl
  | flatbed => rcases h with h | h <;> cases h
  | tpu =>
    rw [checkSource] at h
    rcases h with h | h <;> (split at h <;> cases h)

/-- A source that falls back to the flatbed has every resolution. -/
theorem suitable_clampParam (h : cfg.Suitable sp) : cfg.Suitable (cfg.clampParam sp) :=
  ⟨fun hsource => h.1 (checkSource_tpu hsource), fun hsource => h.2 (checkSource_adf hsource)⟩

/-- A scan that passes the checks is as its second call sizes it. -/
theorem pixmaCheckScanParam_sized (hcfg : cfg ∈ pixmaMp150Devices)
    (h : cfg.pixmaCheckScanParam sp = some p) :
    ∃ q, Resolution q.xdpi ∧ 0 < q.w ∧ (q.channels = 1 ∨ q.channels = 3) ∧
      SameLine p (cfg.sized q) := by
  rw [pixmaCheckScanParam] at h
  split at h
  · cases h
  rename_i hchannels
  split at h
  · cases h
  rename_i hdpi
  split at h
  · cases h
  dsimp only at h
  split at h
  · cases h
  have hchannels' : sp.channels = 1 ∨ sp.channels = 3 := by
    rcases Decidable.not_not.mp hchannels with hc | ⟨hc, -⟩
    · exact .inr hc
    · exact .inl hc
  have hres : Resolution sp.xdpi := by
    refine resolution_of_check (cfgXdpi_le hcfg sp.source) ?_
    exact Bool.eq_true_of_not_eq_false fun hfalse => hdpi (.inl hfalse)
  obtain ⟨hres', hsuit⟩ := @suitable_mp150CheckParam cfg _ hres
  let q : ScanParam := { cfg.clampParam (cfg.mp150CheckParam sp) with lineSize := 0 }
  have hq : q.channels = 1 ∨ q.channels = 3 := by
    have hfirst := @checkDepth_channels cfg _ hchannels'
    rwa [← mp150CheckParam_channels] at hfirst
  have hqw : 0 < q.w := clampParam_w_pos
  have hqres : Resolution q.xdpi := hres'
  have hsame := @mp150CheckParam_same cfg q hqres (suitable_clampParam hsuit)
  have hline : 0 < (cfg.mp150CheckParam q).lineSize := by
    rw [hsame.lineSize]
    exact (getCisCcdLineSize_sized hcfg hqw hq).2
  refine ⟨q, hqres, hqw, hq, ?_⟩
  cases h
  exact ⟨(if_neg hline.ne').trans hsame.lineSize, hsame.channels, hsame.depth,
    hsame.softwareLineart, hsame.xdpi, hsame.w, hsame.wx, hsame.x, hsame.xs, hsame.source⟩

theorem SameLine.getCisCcdLineSize {s : ScanParam} (h : SameLine p s) :
    cfg.getCisCcdLineSize p = cfg.getCisCcdLineSize s := by
  rw [PixmaConfig.getCisCcdLineSize, PixmaConfig.getCisCcdLineSize, isCcdGrayscale, isCcdGrayscale,
    isCcdLineart, isCcdLineart, h.wx, h.lineSize, h.w, h.channels, h.softwareLineart]

theorem SameLine.c {s : ScanParam} (h : SameLine p s) : cfg.c p = cfg.c s := by
  rw [PixmaConfig.c, PixmaConfig.c, isCcdGrayscale, isCcdGrayscale, isCcdLineart, isCcdLineart,
    h.channels, h.softwareLineart, h.depth]

theorem permutes_of_n_dvd (hn : 0 < cfg.n p) (h : cfg.n p ∣ p.wx) :
    Permutes (cfg.n p) (cfg.m p) p.wx := by
  rw [m, if_pos hn]
  exact permutes_of_dvd h

/-- Whenever a call of `mp150_check_param` gets a resolution of the scanner, and for every scan that
    passes all checks, the pixels of a line are permuted; then `reorder_pixels` stays inside the
    line buffer and writes all of it. -/
theorem reorder_pixels_permutes (cfg : PixmaConfig) (hcfg : cfg ∈ pixmaMp150Devices) :
    (∀ sp, pixmaCheckDpi sp.xdpi (cfg.cfgXdpi sp.source) = true →
      let p := cfg.mp150CheckParam sp
      0 < cfg.n p → Permutes (cfg.n p) (cfg.m p) p.wx) ∧
    ∀ sp p, cfg.pixmaCheckScanParam sp = some p → 0 < cfg.n p →
      Permutes (cfg.n p) (cfg.m p) p.wx ∧
      ∀ linebuf mem : List SaneByte, ∀ sptr, linebuf.length = cfg.getCisCcdLineSize p →
        sptr + cfg.getCisCcdLineSize p ≤ mem.length →
        let line := (List.range p.wx).flatMap fun k =>
          stretch mem (sptr + cfg.c p * source (cfg.n p) (cfg.m p) k) (cfg.c p)
        line.length = cfg.getCisCcdLineSize p ∧
          reorderPixels linebuf mem sptr (cfg.c p) (cfg.n p) (cfg.m p) p.wx
            (cfg.getCisCcdLineSize p) = some (line, overwrite mem sptr line) := by
  constructor
  · intro sp hdpi p hn
    exact permutes_of_n_dvd hn (n_dvd_wx (resolution_of_check (cfgXdpi_le hcfg sp.source) hdpi) hn)
  · intro sp p h hn
    obtain ⟨q, hres, hw, hchannels, hsame⟩ := pixmaCheckScanParam_sized hcfg h
    have hdvd : cfg.n p ∣ p.wx := by
      rw [n_congr hsame.xdpi] at hn ⊢
      rw [hsame.wx]
      exact Nat.dvd_trans (n_dvd_align (resolution_sized hres) hn) (align_dvd_checkSize _)
    have hperm := permutes_of_n_dvd hn hdvd
    have hsize : cfg.c p * p.wx = cfg.getCisCcdLineSize p := by
      rw [hsame.c, hsame.wx, hsame.getCisCcdLineSize, (getCisCcdLineSize_sized hcfg hw hchannels).1,
        Nat.mul_comm]
    have hwx : 0 < p.wx := by
      rw [hsame.wx]
      exact checkSize_wx_pos (checkDepth_w_pos hcfg hw)
    exact ⟨hperm, fun linebuf mem sptr hbuf hfit =>
      reorderPixels_eq hwx hperm.whole hsize hbuf hfit⟩

/-! ### The setup of a scan -/

/-- The scanner and the parameters from which a scan is set up. -/
structure Sets (cfg : PixmaConfig) (p : ScanParam) (setup : Mp150Setup) : Prop where
  pid : setup.pid = cfg.pid
  ccd : setup.ccd = cfg.hasCcdSensor
  source : setup.source = p.source
  channels : setup.channels = p.channels
  softwareLineart : setup.softwareLineart = p.softwareLineart
  xdpi : setup.xdpi = p.xdpi
  x : setup.x = p.x
  w : setup.w = p.w

theorem checkSize_raw (sp : ScanParam) :
    (cfg.checkSize sp).xs = (if 2 ≤ cfg.generation then (cfg.checkSize sp).x % 32 else 0) ∧
      (cfg.checkSize sp).wx = cfg.calcRawWidth (cfg.checkSize sp) := by
  unfold checkSize
  dsimp only
  split_ifs <;> exact ⟨rfl, rfl⟩

theorem checkDepth_depth (sp : ScanParam) :
    (if (cfg.checkDepth sp).softwareLineart then 8 else (cfg.checkDepth sp).depth) =
      if (cfg.checkDepth sp).softwareLineart then 8
      else if (cfg.checkDepth sp).source = .tpu then 16 else 8 := by
  rw [checkDepth]
  split <;> rfl

/-- The line of a scan that has passed the checks is the one for which the image is processed. -/
theorem setup_agrees {setup : Mp150Setup} (hcfg : cfg ∈ pixmaMp150Devices)
    (h : cfg.pixmaCheckScanParam sp = some p) (hsets : Sets cfg p setup) :
    setup.generation = cfg.generation ∧ setup.xs = p.xs ∧ setup.wx = p.wx ∧
      setup.wx = cfg.calcRawWidth p ∧ setup.n = cfg.n p ∧ setup.m = cfg.m p ∧
      setup.c = cfg.c p ∧ setup.paramLineSize = p.lineSize ∧
      setup.lineSize = cfg.getCisCcdLineSize p := by
  obtain ⟨q, -, -, -, hsame⟩ := pixmaCheckScanParam_sized hcfg h
  obtain ⟨hxs, hwx⟩ := @checkSize_raw cfg (cfg.checkDepth q)
  obtain ⟨-, hsource, hw, hch, hdepth, hlineart, hline⟩ := @checkSize_eq cfg (cfg.checkDepth q)
  have hgen : setup.generation = cfg.generation := by
    rw [Mp150Setup.generation, generation, hsets.pid]
  have hxs' : setup.xs = p.xs := by
    rw [Mp150Setup.xs, hgen, hsets.x, hsame.x, hsame.xs]
    exact hxs.symm
  have hraw : setup.wx = cfg.calcRawWidth p := by
    rw [Mp150Setup.wx, calcRawWidth, hgen, hsets.w, hsets.channels, hxs']
  have hwx' : setup.wx = p.wx := by
    rw [hraw, hsame.wx, calcRawWidth, hsame.w, hsame.xs, hsame.channels]
    exact hwx.symm
  have hn : setup.n = cfg.n p := by
    rw [Mp150Setup.n, n, hsets.pid, hgen, hsets.xdpi]
  have hbits : setup.depth = if p.softwareLineart then 8 else p.depth := by
    rw [Mp150Setup.depth, hsets.softwareLineart, hsets.source, hsame.softwareLineart, hsame.source,
      hsame.depth, sized, hsource, hdepth, hlineart, checkDepth_depth]
  have hgray : setup.isCcdGrayscale = cfg.isCcdGrayscale p := by
    rw [Mp150Setup.isCcdGrayscale, isCcdGrayscale, hsets.ccd, hsets.channels, hsets.softwareLineart]
  have hccd : setup.isCcdLineart = cfg.isCcdLineart p := by
    rw [Mp150Setup.isCcdLineart, isCcdLineart, hsets.ccd, hsets.softwareLineart]
  have hparam : setup.paramLineSize = p.lineSize := by
    rw [Mp150Setup.paramLineSize, hbits, hsets.w, hsets.channels, hsame.lineSize, sized, hline,
      hsame.w, hsame.channels, hsame.softwareLineart, hsame.depth, sized, hdepth, hlineart, hw, hch]
  refine ⟨hgen, hxs', hwx', hraw, hn, ?_, ?_, hparam, ?_⟩
  · rw [Mp150Setup.m, m, hn, hwx']
  · rw [Mp150Setup.c, c, hgray, hccd, hsets.channels, hbits]
  · rw [Mp150Setup.lineSize, getCisCcdLineSize, hgray, hccd, hwx', hparam, hsets.w]

/-- A gray scan of 40 pixels with 2400 dpi, from pixel 5 on, by an MP630. -/
def grayScan : ScanParam where
  lineSize := 0
  channels := 1
  depth := 8
  softwareLineart := false
  xdpi := 2400
  ydpi := 2400
  x := 5
  y := 0
  w := 40
  h := 10
  xs := 0
  wx := 0
  source := .flatbed

/-- The same scan when the checks have been made. -/
def grayChecked : ScanParam := { grayScan with lineSize := 40, xs := 5, wx := 64 }

/-- Four segments of 16 pixels. -/
theorem reorder_pixels_permutes_gray :
    let cfg := DEVICE MP630_PID 4800 0 0 638 877 PIXMA_CAP_CIS
    ∃ p, cfg.pixmaCheckScanParam grayScan = some p ∧ cfg.n p = 4 ∧ cfg.m p = 16 ∧ p.wx = 64 ∧
      Permutes (cfg.n p) (cfg.m p) p.wx ∧
      reorderPixels (List.replicate 64 0) ((List.range 64).map (BitVec.ofNat 8)) 0 (cfg.c p)
          (cfg.n p) (cfg.m p) p.wx (cfg.getCisCcdLineSize p) =
        let line := (List.range 16).flatMap fun g =>
          [g, 16 + g, 32 + g, 48 + g].map (BitVec.ofNat 8)
        some (line, line) := by
  intro cfg
  have hcfg : cfg ∈ pixmaMp150Devices := by decide
  have haccepted : cfg.pixmaCheckScanParam grayScan = some grayChecked := by decide
  have hn : cfg.n grayChecked = 4 := by decide
  have hm : cfg.m grayChecked = 16 := by decide
  obtain ⟨hperm, hreorder⟩ := (reorder_pixels_permutes cfg hcfg).2 grayScan grayChecked haccepted
    (by rw [hn]; decide)
  refine ⟨grayChecked, haccepted, hn, hm, rfl, hperm, ?_⟩
  refine (hreorder (List.replicate 64 0) _ 0 (by decide) (by decide)).2.trans ?_
  decide

end PixmaConfig

end SaneBackends.Pixma
