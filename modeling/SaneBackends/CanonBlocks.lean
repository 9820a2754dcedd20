import SaneBackends.CanonDescramble
import Mathlib.Tactic.Ring

/-!
# Blocks that a scanner returns

`copy_simplex` and `copy_duplex` stay inside their buffers exactly for the blocks that end where a
line ends, and on these they lose nothing.
-/

namespace SaneBackends.CanonInterlace

open DuplexSides FaultState Gather

namespace Scan

variable {s : Scan} {side : Side} {buf : List SaneByte} {i j k len bytesSent : Nat}

/-! ### One line -/

theorem lt_width_of_mem_pixels (hrgb : s.rgb = true) (h : j ∈ s.pixels side) : j < s.width := by
  have hthird : s.bpl / 3 = s.width := s.bpl_div_three hrgb
  have hbpl := s.bpl_rgb hrgb
  rw [pixels] at h
  cases hcolor : s.colorInterlace.get side with
  | rgb | bgr | rrggbb =>
    rw [hcolor] at h
    exact List.mem_range.mp h
  | rRgGbB =>
    rw [hcolor] at h
    exact mem_countdown_one.mp h
  | i2510 =>
    simp only [hcolor, hthird] at h
    rcases List.mem_append.mp h with h | h
    · rcases List.mem_append.mp h with h | h
      · obtain ⟨k, hk⟩ := (mem_countdown (by decide)).mp h
        omega
      · obtain ⟨k, hk⟩ := (mem_countdown (by decide)).mp h
        omega
    · obtain ⟨k, hk⟩ := (mem_countdown (by decide)).mp h
      omega

theorem last_mem_pixels (hrgb : s.rgb = true) : s.width - 1 ∈ s.pixels side := by
  have hthird : s.bpl / 3 = s.width := s.bpl_div_three hrgb
  have hpos := s.width_pos hrgb
  rw [pixels]
  cases hcolor : s.colorInterlace.get side with
  | rgb | bgr | rrggbb => exact List.mem_range.mpr (by omega)
  | rRgGbB => exact mem_countdown_one.mpr (by omega)
  | i2510 =>
    simp only [hthird]
    exact List.mem_append_left _ (List.mem_append_left _
      ((mem_countdown (by decide)).mpr ⟨0, by omega⟩))

theorem samplesOf_lt (hrgb : s.rgb = true) (hj : j < s.width) (h : i ∈ s.samplesOf side j) :
    i < s.bpl := by
  have hthird : s.bpl / 3 = s.width := s.bpl_div_three hrgb
  have hbpl := s.bpl_rgb hrgb
  rw [samplesOf] at h
  cases hcolor : s.colorInterlace.get side with
  | _ =>
    simp only [hcolor, hthird, List.mem_cons, List.not_mem_nil, or_false] at h
    omega

theorem last_mem_samplesOf (hrgb : s.rgb = true) :
    s.bpl - 1 ∈ s.samplesOf side (s.width - 1) := by
  have hthird : s.bpl / 3 = s.width := s.bpl_div_three hrgb
  have hbpl := s.bpl_rgb hrgb
  have hpos := s.width_pos hrgb
  rw [samplesOf]
  cases hcolor : s.colorInterlace.get side with
  | _ =>
    simp only [hthird, List.mem_cons, List.not_mem_nil, or_false]
    omega

/-- The loops read no place behind the line. -/
theorem order_lt (h : j ∈ s.order side) : j < s.bpl := by
  have hpos := s.bpl_pos
  rw [order] at h
  split at h
  · cases hgray : s.grayInterlace.get side with
    | none =>
      rw [hgray] at h
      exact (List.not_mem_nil h).elim
    | gG =>
      rw [hgray] at h
      exact mem_countdown_one.mp h
    | i2510 =>
      simp only [hgray] at h
      rcases List.mem_append.mp h with h | h
      · rcases List.mem_append.mp h with h | h
        · obtain ⟨k, hk⟩ := (mem_countdown (by decide)).mp h
          omega
        · obtain ⟨k, hk⟩ := (mem_countdown (by decide)).mp h
          omega
      · obtain ⟨k, hk⟩ := (mem_countdown (by decide)).mp h
        omega
  · rename_i hrgb
    split at h
    · exact (List.not_mem_nil h).elim
    · obtain ⟨p, hp, hj⟩ := List.mem_flatMap.mp h
      exact samplesOf_lt (by simpa using hrgb) (lt_width_of_mem_pixels (by simpa using hrgb) hp) hj

/-- They all read the last one. -/
theorem last_mem_order (h : s.order side ≠ []) : s.bpl - 1 ∈ s.order side := by
  have hpos := s.bpl_pos
  rw [order] at h ⊢
  split at h
  · rename_i hrgb
    rw [if_pos hrgb]
    cases hgray : s.grayInterlace.get side with
    | none =>
      rw [hgray] at h
      exact absurd rfl h
    | gG => exact mem_countdown_one.mpr (by omega)
    | i2510 =>
      exact List.mem_append_left _ (List.mem_append_left _
        ((mem_countdown (by decide)).mpr ⟨0, by omega⟩))
  · rename_i hrgb
    rw [if_neg hrgb]
    split at h
    · exact absurd rfl h
    · rename_i hcolor
      rw [if_neg hcolor]
      have hrgb' : s.rgb = true := by simpa using hrgb
      exact List.mem_flatMap.mpr ⟨_, last_mem_pixels hrgb', last_mem_samplesOf hrgb'⟩

theorem padding_of_order (h : s.order side = []) : s.padding side = 0 := by
  rw [padding]
  split
  · split
    · rename_i hrgb hgray
      have hpos := s.bpl_pos
      rw [order, if_pos hrgb, hgray] at h
      have hnil := (List.append_eq_nil_iff.mp (List.append_eq_nil_iff.mp h).1).1
      exact absurd hnil (countdown_ne_nil (by omega) (by decide))
    · rfl
  · split
    · rename_i hrgb hcolor
      have hrgb' : s.rgb = true := by simpa using hrgb
      rw [order, if_neg hrgb, if_neg (by rw [hcolor]; decide)] at h
      exact absurd h (flatMap_samplesOf_ne_nil (List.ne_nil_of_mem (last_mem_pixels hrgb')))
    · rfl

/-- The three read heads of a colour line have no more pixels than the line. -/
def LineFits (s : Scan) (side : Side) : Prop :=
  s.rgb = true → s.colorInterlace.get side = .i2510 →
    s.width % 12 ≠ 4 ∧ s.width % 12 ≠ 5 ∧ s.width % 12 ≠ 8

theorem length_order_color (hrgb : s.rgb = true) (hcolor : s.colorInterlace.get side ≠ .rgb) :
    (s.order side).length = (s.pixels side).length * 3 := by
  rw [order, if_neg (by rw [hrgb]; decide), if_neg hcolor]
  exact length_flatMap_const fun j _ => s.length_samplesOf side j

theorem heads_gray_le {n : Nat} (hpos : 0 < n) :
    (((n : Int) - 1 + (3 : Nat)) / (3 : Nat)).toNat +
      ((((n * 3 / 4 : Nat) : Int) - 3 + (3 : Nat)) / (3 : Nat)).toNat +
      (((n : Int) - 2 + (3 : Nat)) / (3 : Nat)).toNat + n / 12 ≤ n := by
  obtain ⟨q, r, hr, rfl⟩ := exists_mod_twelve n
  interval_cases r <;> omega

theorem heads_color_le_iff {w : Nat} (hpos : 0 < w) :
    ((((w : Int) - 1 + (3 : Nat)) / (3 : Nat)).toNat +
      ((((3 * w / 4 : Nat) : Int) - 3 + (3 : Nat)) / (3 : Nat)).toNat +
      (((w : Int) - 2 + (3 : Nat)) / (3 : Nat)).toNat) * 3 + 3 * w / 12 ≤ 3 * w ↔
        w % 12 ≠ 4 ∧ w % 12 ≠ 5 ∧ w % 12 ≠ 8 := by
  obtain ⟨q, r, hr, rfl⟩ := exists_mod_twelve w
  interval_cases r <;> omega

/-- The samples and the padding are not more than a line exactly in this case. -/
theorem lineFits_iff : (s.order side).length + s.padding side ≤ s.bpl ↔ s.LineFits side := by
  have hpos := s.bpl_pos
  cases hrgb : s.rgb with
  | false =>
    refine ⟨fun _ h => absurd h (by rw [hrgb]; decide), fun _ => ?_⟩
    rw [order, if_pos hrgb, padding, if_pos hrgb]
    cases hgray : s.grayInterlace.get side with
    | none => exact Nat.zero_le _
    | gG =>
      rw [if_neg (by decide), length_countdown]
      omega
    | i2510 =>
      rw [if_pos rfl, List.length_append, List.length_append, length_countdown, length_countdown,
        length_countdown]
      exact heads_gray_le hpos
  | true =>
    have hrgb' : ¬ s.rgb = false := by rw [hrgb]; decide
    have hbpl := s.bpl_rgb hrgb
    have hthird : s.bpl / 3 = s.width := s.bpl_div_three hrgb
    have hwidth := s.width_pos hrgb
    cases hcolor : s.colorInterlace.get side with
    | rgb =>
      refine ⟨fun _ _ h => absurd h (by rw [hcolor]; decide), fun _ => ?_⟩
      rw [order, if_neg hrgb', if_pos hcolor, padding, if_neg hrgb',
        if_neg (by rw [hcolor]; decide)]
      exact Nat.zero_le _
    | bgr | rrggbb =>
      refine ⟨fun _ _ h => absurd h (by rw [hcolor]; decide), fun _ => ?_⟩
      rw [length_order_color hrgb (by rw [hcolor]; decide), pixels, hcolor, List.length_range,
        padding, if_neg hrgb', if_neg (by rw [hcolor]; decide)]
      omega
    | rRgGbB =>
      refine ⟨fun _ _ h => absurd h (by rw [hcolor]; decide), fun _ => ?_⟩
      rw [length_order_color hrgb (by rw [hcolor]; decide), pixels, hcolor, length_countdown,
        padding, if_neg hrgb', if_neg (by rw [hcolor]; decide)]
      omega
    | i2510 =>
      rw [length_order_color hrgb (by rw [hcolor]; decide), pixels, hcolor, padding, if_neg hrgb',
        if_pos hcolor, List.length_append, List.length_append, length_countdown, length_countdown,
        length_countdown, hthird, hbpl, heads_color_le_iff hwidth]
      exact ⟨fun h _ _ => h, fun h => h hrgb hcolor⟩

/-- A line of the block in its order, the padding at its end. -/
def lineAt (s : Scan) (side : Side) (buf : List SaneByte) (i : Nat) : List SaneByte :=
  picked buf ((s.samples side).map (i + ·)) ++ List.replicate (s.padding side) 0

theorem descramble_eq (hi : i + s.bpl ≤ buf.length) (hfits : s.LineFits side) :
    s.descramble side buf i = .ok (s.lineAt side buf i) := by
  have hroom := (lineFits_iff).mpr hfits
  have hmem : ∀ j ∈ (s.order side).map (i + ·), j < buf.length := by
    intro j hj
    obtain ⟨p, hp, rfl⟩ := List.mem_map.mp hj
    have hlt := order_lt hp
    omega
  have hlen := length_picked hmem
  rw [List.length_map] at hlen
  rw [descramble, gather_eq hmem (by rw [List.length_nil, List.length_map]; omega), ok_bind,
    List.nil_append, pushAll_eq (by rw [hlen, List.length_replicate]; exact hroom), ok_bind, lineAt,
    samples]
  by_cases horder : s.order side = []
  · rw [horder, padding_of_order horder, if_pos (by rfl), if_pos rfl, loadCells, if_pos hi,
      picked_stretch hi, List.replicate_zero, List.append_nil]
  · rw [if_neg horder, if_neg]
    · rfl
    · intro hnil
      rw [(List.append_eq_nil_iff.mp hnil).1, List.length_nil] at hlen
      exact horder (List.length_eq_zero_iff.mp hlen.symm)

theorem descramble_ok {line : List SaneByte} (h : s.descramble side buf i = .ok line) :
    i + s.bpl ≤ buf.length ∧ s.LineFits side := by
  have hpos := s.bpl_pos
  rw [descramble] at h
  obtain ⟨line₁, hgather, h⟩ := bind_eq_ok.mp h
  obtain ⟨line₂, hzeros, h⟩ := bind_eq_ok.mp h
  obtain ⟨hmem, hcap⟩ := gather_ok (Nat.zero_le _) hgather
  rw [gather_eq hmem hcap] at hgather
  cases hgather
  rw [List.length_nil, List.length_map, Nat.zero_add] at hcap
  have hlen := length_picked hmem
  rw [List.length_map] at hlen
  rw [List.nil_append] at hzeros
  have hroom := pushAll_ok (by rw [hlen]; exact hcap) hzeros
  rw [hlen, List.length_replicate] at hroom
  refine ⟨?_, (lineFits_iff).mp hroom⟩
  by_cases horder : s.order side = []
  · rw [horder, padding_of_order horder] at hzeros
    cases hzeros
    rw [if_pos (by rfl), loadCells] at h
    split at h
    · assumption
    · cases h
  · have hlast := hmem _ (List.mem_map.mpr ⟨_, last_mem_order horder, rfl⟩)
    omega

/-! ### One side -/

/-- Whether line `k` of the block is one that the frontend gets. -/
def kept (s : Scan) (side : Side) (bytesSent k : Nat) : Bool :=
  decide (s.skipLines.get side ≤ bytesSent / s.bpl + k ∧
    bytesSent / s.bpl + k < s.skipLines.get side + s.height)

/-- Each line that is kept is a whole one, and its samples fit in it. -/
def SimplexFits (s : Scan) (side : Side) (bytesSent len : Nat) : Prop :=
  ∀ k, k * s.bpl < len → s.kept side bytesSent k = true →
    (k + 1) * s.bpl ≤ len ∧ s.LineFits side

/-- The lines that are kept of the first `n` lines of a block. -/
def keptLines (s : Scan) (side : Side) (bytesSent : Nat) (buf : List SaneByte) (n : Nat) :
    List (List SaneByte) :=
  ((List.range n).filter (s.kept side bytesSent)).map fun k => s.lineAt side buf (k * s.bpl)

theorem keptLines_succ (n : Nat) :
    s.keptLines side bytesSent buf (n + 1) = s.keptLines side bytesSent buf n ++
      if s.kept side bytesSent n = true then [s.lineAt side buf (n * s.bpl)] else [] := by
  rw [keptLines, List.range_succ, List.filter_append, List.map_append]
  by_cases hkept : s.kept side bytesSent n = true
  · rw [if_pos hkept, List.filter_cons_of_pos hkept]
    rfl
  · rw [if_neg hkept, List.filter_cons_of_neg hkept]
    rfl

theorem copySimplexLine_eq (lines : List (List SaneByte)) (k : Nat) :
    s.copySimplexLine side buf (lines, bytesSent + k * s.bpl) k =
      if s.kept side bytesSent k = true then do
        return (lines ++ [← s.descramble side buf (k * s.bpl)], bytesSent + (k + 1) * s.bpl)
      else .ok (lines, bytesSent + (k + 1) * s.bpl) := by
  have hnext : bytesSent + k * s.bpl + s.bpl = bytesSent + (k + 1) * s.bpl := by
    rw [Nat.succ_mul, Nat.add_assoc]
  have hnum : ((bytesSent + k * s.bpl : Nat) : Int) / s.bpl = (bytesSent / s.bpl + k : Nat) := by
    rw [← Nat.add_mul_div_right bytesSent k s.bpl_pos]
    exact (Int.natCast_ediv _ _).symm
  rw [copySimplexLine]
  simp only [hnum, hnext]
  by_cases hkept : s.kept side bytesSent k = true
  · have hrange := of_decide_eq_true hkept
    rw [if_pos hkept, if_neg (by omega)]
  · have hrange : ¬ _ := fun h => hkept (decide_eq_true h)
    rw [if_neg hkept, if_pos (by omega)]

/-- `copy_simplex` up to a line. -/
theorem copyLines_eq (n : Nat) (h : ∀ k < n, s.kept side bytesSent k = true →
      (k + 1) * s.bpl ≤ buf.length ∧ s.LineFits side) :
    (List.range n).foldlM (s.copySimplexLine side buf) ([], bytesSent) =
      .ok (s.keptLines side bytesSent buf n, bytesSent + n * s.bpl) := by
  induction n with
  | zero =>
    rw [Nat.zero_mul]
    rfl
  | succ n ih =>
    rw [List.range_succ, List.foldlM_append, ih fun k hk => h k (Nat.lt_succ_of_lt hk), ok_bind,
      List.foldlM_cons, copySimplexLine_eq, keptLines_succ]
    by_cases hkept : s.kept side bytesSent n = true
    · obtain ⟨hinside, hfits⟩ := h n (Nat.lt_succ_self n) hkept
      rw [if_pos hkept, if_pos hkept, descramble_eq (by rwa [Nat.succ_mul] at hinside) hfits]
      rfl
    · rw [if_neg hkept, if_neg hkept, List.append_nil]
      rfl

theorem copyLines_ok {n : Nat} {r : List (List SaneByte) × Nat}
    (h : (List.range n).foldlM (s.copySimplexLine side buf) ([], bytesSent) = .ok r) :
    ∀ k < n, s.kept side bytesSent k = true →
      (k + 1) * s.bpl ≤ buf.length ∧ s.LineFits side := by
  induction n generalizing r with
  | zero => exact fun k hk => absurd hk (Nat.not_lt_zero k)
  | succ n ih =>
    rw [List.range_succ, List.foldlM_append] at h
    obtain ⟨mid, hmid, h⟩ := bind_eq_ok.mp h
    have hbefore := ih hmid
    rw [copyLines_eq n hbefore] at hmid
    cases hmid
    rw [List.foldlM_cons, copySimplexLine_eq] at h
    intro k hk hkept
    rcases Nat.lt_succ_iff_lt_or_eq.mp hk with hlt | rfl
    · exact hbefore k hlt hkept
    · obtain ⟨st, hstep, _⟩ := bind_eq_ok.mp h
      rw [if_pos hkept] at hstep
      obtain ⟨line, hline, _⟩ := bind_eq_ok.mp hstep
      rw [Nat.succ_mul]
      exact descramble_ok hline

theorem lt_lines_iff : k < (len + s.bpl - 1) / s.bpl ↔ k * s.bpl < len := by
  have hpos := s.bpl_pos
  rw [Nat.lt_iff_add_one_le, Nat.le_div_iff_mul_le hpos, Nat.succ_mul]
  omega

theorem copySimplex_eq (h : s.SimplexFits side bytesSent buf.length) :
    s.copySimplex side bytesSent buf =
      .ok (s.keptLines side bytesSent buf ((buf.length + s.bpl - 1) / s.bpl),
        bytesSent + (buf.length + s.bpl - 1) / s.bpl * s.bpl) :=
  copyLines_eq _ fun k hk => h k ((lt_lines_iff).mp hk)

theorem copySimplex_ok_iff :
    (∃ r, s.copySimplex side bytesSent buf = .ok r) ↔ s.SimplexFits side bytesSent buf.length := by
  constructor
  · rintro ⟨r, h⟩ k hk
    exact copyLines_ok h k ((lt_lines_iff).mpr hk)
  · intro h
    exact ⟨_, copySimplex_eq h⟩

/-! ### Both sides -/

/-- A block that the loops of `copy_duplex` can divide. -/
def SplitFits (s : Scan) (len : Nat) : Prop :=
  match s.duplexInterlace with
  | .i2510 => 2 * s.bpl ∣ len ∧ (0 < len → 3 ∣ s.bpl)
  | .ffbb => 2 * s.bpl ∣ len
  | .none | .fbfb => 2 ∣ len

/-- The last turn of a loop reads the last byte of a double line: the block ends there. -/
theorem dvd_of_last {dbwidth n : Nat} (hd : 0 < dbwidth) (hn : n = (len + dbwidth - 1) / dbwidth)
    (h : 0 < len → (n - 1) * dbwidth + dbwidth ≤ len) : dbwidth ∣ len := by
  rcases Nat.eq_zero_or_pos len with rfl | hlen
  · exact Nat.dvd_zero dbwidth
  · have hn1 : 1 ≤ n := by
      rw [hn, Nat.le_div_iff_mul_le hd]
      omega
    have hle : len ≤ n * dbwidth := by
      have hmod := Nat.div_add_mod (len + dbwidth - 1) dbwidth
      have hlt := Nat.mod_lt (len + dbwidth - 1) hd
      rw [← hn, Nat.mul_comm] at hmod
      omega
    have hge := h hlen
    rw [← Nat.succ_mul, Nat.succ_eq_add_one, Nat.sub_add_cancel hn1] at hge
    exact ⟨n, by rw [Nat.mul_comm]; omega⟩

theorem lines_pos {dbwidth : Nat} (hd : 0 < dbwidth) (hlen : 0 < len) :
    0 < (len + dbwidth - 1) / dbwidth :=
  Nat.div_pos (by omega) hd

/-- A block of which every place that is read exists. -/
theorem splitFits_of_inside
    (h : ∀ g ∈ s.groups len, (∀ j ∈ g.1, j < len) ∧ ∀ j ∈ g.2, j < len) : s.SplitFits len := by
  have hpos := s.bpl_pos
  have hd : 0 < 2 * s.bpl := by omega
  rw [groups] at h
  rw [SplitFits]
  cases hlayout : s.duplexInterlace with
  | i2510 =>
    simp only [hlayout] at h ⊢
    have hlast : 0 < len →
        ((len + 2 * s.bpl - 1) / (2 * s.bpl) - 1) * (2 * s.bpl) + ((2 * s.bpl + 5) / 6 - 1) * 6 + 5
          < len := by
      intro hlen
      have hn := lines_pos hd hlen
      have hgroup := h _ (List.mem_flatMap.mpr
        ⟨(len + 2 * s.bpl - 1) / (2 * s.bpl) - 1, List.mem_range.mpr (by omega),
          List.mem_map.mpr ⟨(2 * s.bpl + 5) / 6 - 1, List.mem_range.mpr (by omega), rfl⟩⟩)
      exact hgroup.1 _
        (List.mem_cons_of_mem _ (List.mem_cons_of_mem _ (List.mem_singleton.mpr rfl)))
    have hdvd : 2 * s.bpl ∣ len := by
      refine dvd_of_last hd rfl fun hlen => ?_
      have hlt := hlast hlen
      omega
    refine ⟨hdvd, fun hlen => ?_⟩
    obtain ⟨n, rfl⟩ := hdvd
    have hlt := hlast hlen
    have hn : 0 < n := Nat.pos_of_mul_pos_left hlen
    have hlines : (2 * s.bpl * n + 2 * s.bpl - 1) / (2 * s.bpl) = n := by
      rw [Nat.add_sub_assoc (by omega), Nat.mul_add_div hd,
        Nat.div_eq_of_lt (by omega), Nat.add_zero]
    have hprev : 2 * s.bpl * n = (n - 1) * (2 * s.bpl) + 2 * s.bpl := by
      rw [← Nat.succ_mul, Nat.succ_eq_add_one, Nat.sub_add_cancel hn, Nat.mul_comm]
    rw [hlines, hprev] at hlt
    omega
  | ffbb =>
    simp only [hlayout] at h ⊢
    refine dvd_of_last hd rfl fun hlen => ?_
    have hn := lines_pos hd hlen
    have hgroup := h _ (List.mem_map.mpr
      ⟨(len + 2 * s.bpl - 1) / (2 * s.bpl) - 1, List.mem_range.mpr (by omega), rfl⟩)
    have hlt := hgroup.2 _ (List.mem_map.mpr ⟨s.bpl - 1, List.mem_range.mpr (by omega), rfl⟩)
    omega
  | none | fbfb =>
    simp only [hlayout] at h ⊢
    rcases Nat.eq_zero_or_pos len with rfl | hlen
    · exact Nat.dvd_zero 2
    · have hgroup := h _ (List.mem_map.mpr
        ⟨(len + 1) / 2 - 1, List.mem_range.mpr (by omega), rfl⟩)
      have hlt := hgroup.2 _ (List.mem_singleton.mpr rfl)
      omega

theorem length_blocks {dbwidth n : Nat} (hd : 0 < dbwidth) :
    (dbwidth * n + dbwidth - 1) / dbwidth = n := by
  rw [Nat.add_sub_assoc (by omega), Nat.mul_add_div hd, Nat.div_eq_of_lt (by omega), Nat.add_zero]

/-- In each turn as many bytes go to the front as to the back. -/
theorem length_groups (h : s.SplitFits len) :
    ∃ c, (∀ g ∈ s.groups len, g.1.length = c ∧ g.2.length = c) ∧
      (s.groups len).length * c * 2 = len := by
  have hd : 0 < 2 * s.bpl := by
    have hpos := s.bpl_pos
    omega
  rw [SplitFits] at h
  rw [groups]
  cases hlayout : s.duplexInterlace with
  | i2510 =>
    simp only [hlayout] at h ⊢
    obtain ⟨⟨n, rfl⟩, hthree⟩ := h
    refine ⟨3, ?_, ?_⟩
    · intro g hg
      obtain ⟨k, -, hg⟩ := List.mem_flatMap.mp hg
      obtain ⟨j, -, rfl⟩ := List.mem_map.mp hg
      exact ⟨rfl, rfl⟩
    · rw [length_flatMap_const (c := (2 * s.bpl + 5) / 6)
        (fun k _ => by rw [List.length_map, List.length_range]), List.length_range,
        length_blocks hd]
      rcases Nat.eq_zero_or_pos n with rfl | hn
      · rw [Nat.zero_mul, Nat.zero_mul, Nat.mul_zero]
      · obtain ⟨b, hb⟩ := hthree (Nat.mul_pos hd hn)
        have hsix : (2 * s.bpl + 5) / 6 = b := by omega
        rw [hsix, hb]
        ring
  | ffbb =>
    simp only [hlayout] at h ⊢
    obtain ⟨n, rfl⟩ := h
    refine ⟨s.bpl, ?_, ?_⟩
    · intro g hg
      obtain ⟨k, -, rfl⟩ := List.mem_map.mp hg
      rw [List.length_map, List.length_map, List.length_range]
      exact ⟨rfl, rfl⟩
    · rw [List.length_map, List.length_range, length_blocks hd]
      ring
  | none | fbfb =>
    simp only [hlayout] at h ⊢
    refine ⟨1, ?_, ?_⟩
    · intro g hg
      obtain ⟨k, -, rfl⟩ := List.mem_map.mp hg
      exact ⟨rfl, rfl⟩
    · rw [List.length_map, List.length_range]
      omega

/-- Every byte of the block is read for one of the sides. -/
theorem mem_groups (h : s.SplitFits len) (hj : j < len) :
    ∃ g ∈ s.groups len, j ∈ g.1 ∨ j ∈ g.2 := by
  have hd : 0 < 2 * s.bpl := by
    have hpos := s.bpl_pos
    omega
  have hdiv := Nat.div_add_mod j (2 * s.bpl)
  have hmod := Nat.mod_lt j hd
  have hline : 2 * s.bpl ∣ len → j / (2 * s.bpl) < (len + 2 * s.bpl - 1) / (2 * s.bpl) := by
    rintro ⟨n, rfl⟩
    rw [length_blocks hd]
    exact Nat.div_lt_of_lt_mul hj
  rw [SplitFits] at h
  rw [groups]
  cases hlayout : s.duplexInterlace with
  | i2510 =>
    simp only [hlayout] at h ⊢
    have hthree := h.2 (Nat.zero_lt_of_lt hj)
    refine ⟨_, List.mem_flatMap.mpr ⟨j / (2 * s.bpl), List.mem_range.mpr (hline h.1),
      List.mem_map.mpr ⟨j % (2 * s.bpl) / 6, List.mem_range.mpr (by omega), rfl⟩⟩, ?_⟩
    simp only [List.mem_cons, List.not_mem_nil, or_false]
    rw [Nat.mul_comm] at hdiv
    omega
  | ffbb =>
    simp only [hlayout] at h ⊢
    refine ⟨_, List.mem_map.mpr ⟨j / (2 * s.bpl), List.mem_range.mpr (hline h), rfl⟩, ?_⟩
    rw [Nat.mul_comm] at hdiv
    simp only [List.mem_map, List.mem_range]
    rcases Nat.lt_or_ge (j % (2 * s.bpl)) s.bpl with hlt | hge
    · exact .inl ⟨_, hlt, hdiv⟩
    · exact .inr ⟨j % (2 * s.bpl) - s.bpl, by omega, by omega⟩
  | none | fbfb =>
    simp only [hlayout] at h ⊢
    refine ⟨_, List.mem_map.mpr ⟨j / 2, List.mem_range.mpr (by omega), rfl⟩, ?_⟩
    simp only [List.mem_cons, List.not_mem_nil, or_false]
    omega

/-- The places of the front of a block, and those of the back. -/
def frontPlaces (s : Scan) (len : Nat) : List Nat := (s.groups len).flatMap Prod.fst

def backPlaces (s : Scan) (len : Nat) : List Nat := (s.groups len).flatMap Prod.snd

theorem length_places (h : s.SplitFits len) :
    (s.frontPlaces len).length = len / 2 ∧ (s.backPlaces len).length = len / 2 ∧ 2 ∣ len := by
  obtain ⟨c, hlen, htotal⟩ := length_groups h
  rw [frontPlaces, backPlaces, length_flatMap_const fun g hg => (hlen g hg).1,
    length_flatMap_const fun g hg => (hlen g hg).2]
  omega

/-- Nothing of a block is lost, and nothing is there twice. -/
theorem places_perm (h : s.SplitFits len) :
    (s.frontPlaces len ++ s.backPlaces len).Perm (List.range len) := by
  obtain ⟨hfront, hback, htwo⟩ := length_places h
  refine perm_range (fun j hj => ?_) (by rw [List.length_append]; omega)
  obtain ⟨g, hg, hmem⟩ := mem_groups h hj
  rcases hmem with hmem | hmem
  · exact List.mem_append_left _ (List.mem_flatMap.mpr ⟨g, hg, hmem⟩)
  · exact List.mem_append_right _ (List.mem_flatMap.mpr ⟨g, hg, hmem⟩)

theorem inside_of_splitFits (h : s.SplitFits len) :
    ∀ g ∈ s.groups len, (∀ j ∈ g.1, j < len) ∧ ∀ j ∈ g.2, j < len := by
  have hperm := places_perm h
  intro g hg
  constructor
  · intro j hj
    exact List.mem_range.mp (hperm.mem_iff.mp
      (List.mem_append_left _ (List.mem_flatMap.mpr ⟨g, hg, hj⟩)))
  · intro j hj
    exact List.mem_range.mp (hperm.mem_iff.mp
      (List.mem_append_right _ (List.mem_flatMap.mpr ⟨g, hg, hj⟩)))

theorem split_eq (h : s.SplitFits buf.length) :
    s.split buf =
      .ok (picked buf (s.frontPlaces buf.length), picked buf (s.backPlaces buf.length)) := by
  obtain ⟨hfront, hback, _⟩ := length_places h
  rw [frontPlaces] at hfront
  rw [backPlaces] at hback
  refine gatherPairs_eq (inside_of_splitFits h) ?_ ?_
  · rw [hfront, List.length_nil, Nat.zero_add]
  · rw [hback, List.length_nil, Nat.zero_add]

theorem length_sides (h : s.SplitFits buf.length) :
    (picked buf (s.frontPlaces buf.length)).length = buf.length / 2 ∧
      (picked buf (s.backPlaces buf.length)).length = buf.length / 2 := by
  have hperm := places_perm h
  obtain ⟨hfront, hback, _⟩ := length_places h
  constructor
  · rw [length_picked, hfront]
    exact fun j hj => List.mem_range.mp (hperm.mem_iff.mp (List.mem_append_left _ hj))
  · rw [length_picked, hback]
    exact fun j hj => List.mem_range.mp (hperm.mem_iff.mp (List.mem_append_right _ hj))

/-- A block that can be divided, into halves that `copy_simplex` can take. -/
def DuplexFits (s : Scan) (bytesSent : Sides Nat) (len : Nat) : Prop :=
  s.SplitFits len ∧ s.SimplexFits .front bytesSent.front (len / 2) ∧
    s.SimplexFits .back bytesSent.back (len / 2)

theorem copyDuplex_ok_iff {bytesSent : Sides Nat} :
    (∃ r, s.copyDuplex bytesSent buf = .ok r) ↔ s.DuplexFits bytesSent buf.length := by
  constructor
  · rintro ⟨r, h⟩
    rw [copyDuplex] at h
    obtain ⟨sides, hsplit, h⟩ := bind_eq_ok.mp h
    obtain ⟨front, hfront, h⟩ := bind_eq_ok.mp h
    obtain ⟨back, hback, h⟩ := bind_eq_ok.mp h
    have hfits : s.SplitFits buf.length :=
      splitFits_of_inside (gatherPairs_ok (Nat.zero_le _) (Nat.zero_le _) hsplit).1
    rw [split_eq hfits] at hsplit
    cases hsplit
    obtain ⟨hlen, hlen'⟩ := length_sides hfits
    refine ⟨hfits, ?_, ?_⟩
    · rw [← hlen]
      exact (copySimplex_ok_iff).mp ⟨_, hfront⟩
    · rw [← hlen']
      exact (copySimplex_ok_iff).mp ⟨_, hback⟩
  · rintro ⟨hfits, hfront, hback⟩
    obtain ⟨hlen, hlen'⟩ := length_sides hfits
    rw [← hlen] at hfront
    rw [← hlen'] at hback
    rw [copyDuplex, split_eq hfits, ok_bind]
    dsimp only
    rw [copySimplex_eq hfront, ok_bind, copySimplex_eq hback]
    exact ⟨_, rfl⟩

/-! ### What is wanted of a block -/

/-- Whole lines keep their samples, each at one place, and no block is read or written outside. -/
structure SimplexProper (s : Scan) (side : Side) (bytesSent : Nat) (buf : List SaneByte) :
    Prop where
  whole : s.bpl ∣ buf.length →
    (∀ k, k * s.bpl < buf.length → s.kept side bytesSent k = true → s.IsLayout side) ∧
    s.copySimplex side bytesSent buf =
      .ok (s.keptLines side bytesSent buf (buf.length / s.bpl), bytesSent + buf.length)
  inside : ∃ r, s.copySimplex side bytesSent buf = .ok r

/-- Whole double lines are divided without loss, and no block is read or written outside. -/
structure DuplexProper (s : Scan) (bytesSent : Sides Nat) (buf : List SaneByte) : Prop where
  whole : 2 * s.bpl ∣ buf.length →
    (s.frontPlaces buf.length ++ s.backPlaces buf.length).Perm (List.range buf.length) ∧
      (s.frontPlaces buf.length).length = buf.length / 2 ∧
      (s.backPlaces buf.length).length = buf.length / 2 ∧
      s.split buf =
        .ok (picked buf (s.frontPlaces buf.length), picked buf (s.backPlaces buf.length))
  inside : ∃ r, s.copyDuplex bytesSent buf = .ok r

/-- Each line that is kept is a whole one, and its samples fit in it; in a block of whole lines
    they also meet without a gap. -/
def SimplexKeeps (s : Scan) (side : Side) (bytesSent len : Nat) : Prop :=
  s.SimplexFits side bytesSent len ∧
    (s.bpl ∣ len → ∀ k, k * s.bpl < len → s.kept side bytesSent k = true → s.Aligned side)

theorem copySimplex_whole (hlen : s.bpl ∣ buf.length)
    (h : s.SimplexFits side bytesSent buf.length) :
    s.copySimplex side bytesSent buf =
      .ok (s.keptLines side bytesSent buf (buf.length / s.bpl), bytesSent + buf.length) := by
  obtain ⟨n, hn⟩ := hlen
  rw [copySimplex_eq h, hn, length_blocks s.bpl_pos, Nat.mul_div_cancel_left n s.bpl_pos,
    Nat.mul_comm n]

theorem simplexProper_iff :
    s.SimplexProper side bytesSent buf ↔ s.SimplexKeeps side bytesSent buf.length := by
  constructor
  · intro h
    refine ⟨(copySimplex_ok_iff).mp h.inside, fun hlen k hk hkept => ?_⟩
    exact isLayout_iff.mp ((h.whole hlen).1 k hk hkept)
  · rintro ⟨hfits, haligned⟩
    refine ⟨fun hlen => ⟨fun k hk hkept => ?_, copySimplex_whole hlen hfits⟩,
      (copySimplex_ok_iff).mpr hfits⟩
    exact isLayout_iff.mpr (haligned hlen k hk hkept)

theorem duplexProper_iff {bytesSent : Sides Nat} :
    s.DuplexProper bytesSent buf ↔ s.DuplexFits bytesSent buf.length := by
  constructor
  · intro h
    exact (copyDuplex_ok_iff).mp h.inside
  · intro h
    obtain ⟨hfront, hback, _⟩ := length_places h.1
    exact ⟨fun _ => ⟨places_perm h.1, hfront, hback, split_eq h.1⟩, (copyDuplex_ok_iff).mpr h⟩

/-- Every block, simplex or duplex, is descrambled without loss and without leaving its buffers
    exactly if each of its lines that is kept is a whole one in which the layout has room, and if
    the layout takes every sample of a whole block. -/
theorem descramble_proper_iff (s : Scan) (side : Side) (bytesSent : Sides Nat)
    (buf : List SaneByte) :
    (s.SimplexProper side (bytesSent.get side) buf ↔
        s.SimplexKeeps side (bytesSent.get side) buf.length) ∧
      (s.DuplexProper bytesSent buf ↔ s.DuplexFits bytesSent buf.length) :=
  ⟨simplexProper_iff, duplexProper_iff⟩

/-- A gray scan of two bytes a line whose bytes alternate between the sides. -/
def alternating : Scan where
  bpl := 2
  width := 2
  pplMod := 1
  rgb := false
  grayInterlace := ⟨.none, .gG⟩
  colorInterlace := ⟨.rrggbb, .rRgGbB⟩
  duplexInterlace := .fbfb
  skipLines := ⟨0, 0⟩
  height := 2
  bpl_pos := Nat.two_pos
  bpl_rgb := by decide
  width_mod := Nat.one_dvd 2

/-- Of a block with an odd number of bytes the last front byte has no back byte, and no place. -/
theorem copyDuplex_reads_behind :
    alternating.copyDuplex ⟨0, 0⟩ [1, 2, 3, 4, 5] = .error .outOfBounds ∧
      ¬ alternating.DuplexProper ⟨0, 0⟩ [1, 2, 3, 4, 5] := by
  have hfault : alternating.copyDuplex ⟨0, 0⟩ [1, 2, 3, 4, 5] = .error .outOfBounds := by
    rfl
  refine ⟨hfault, fun h => ?_⟩
  obtain ⟨r, hr⟩ := h.inside
  rw [hfault] at hr
  cases hr

end Scan

end SaneBackends.CanonInterlace
