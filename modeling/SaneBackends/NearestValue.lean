import SaneBackends.ConstrainedWords

/-!
# The nearest allowed value

Whether `sanei_constrain_value` stores a value nearest to the one it was given.  For ranges it
does unless rounding leaves the range or the sum that is divided loses its highest bit.  For
word lists it does unless differences of `2 ^ 31` and more, which `abs` of a `SANE_Word` makes
small, decide which word is taken.
-/

namespace SaneBackends

open FaultState GridRounding SignedWords

/-! ### Ranges -/

/-- A number that the range allows. -/
def SaneRange.Admissible (r : SaneRange) (y : Int) : Prop :=
  r.min.toInt ≤ y ∧ y ≤ r.max.toInt ∧
    (r.quant = 0 ∨ ∃ k : Int, y = r.min.toInt + k * r.quant.toInt)

/-- The number is less than half a step behind the last point of the grid, and the sum that is
    divided fits in an `unsigned int`. -/
def SaneRange.RoundsNearest (r : SaneRange) (x : Int) : Prop :=
  r.quant = 0 ∨
    clampInt r x < lastGrid r.min.toInt r.max.toInt r.quant.toInt +
      (r.quant.toInt - r.quant.toInt / 2) ∧
    roundOffset r (clampInt r x) < 2 ^ 32

variable {r : SaneRange} {a : SaneWord}

theorem admissible_iff_gridPoint (hq : r.quant ≠ 0) :
    r.Admissible = GridPoint r.min.toInt r.max.toInt r.quant.toInt := by
  funext y
  rw [SaneRange.Admissible, or_iff_right hq]
  rfl

/-- Without steps the nearest number is the one between the ends. -/
theorem clampInt_nearest (hr : RangeProper r) (hq : r.quant = 0) (x : Int) :
    Nearest r.Admissible x (clampInt r x) := by
  have hmem := hr.clampInt_mem x
  refine ⟨⟨hmem.1, hmem.2, .inl hq⟩, ?_⟩
  rintro z ⟨hz, hz', -⟩
  rw [clampInt] at hmem ⊢
  omega

/-- When the sum loses its highest bit, the last point of the grid would be nearer than the least
    number is. -/
theorem not_nearest_of_carry (hr : RangeProper r) (hq : r.quant ≠ 0) {x : Int}
    (h : 2 ^ 32 ≤ roundOffset r (clampInt r x)) : ¬ Nearest r.Admissible x r.min.toInt := by
  have hpos := hr.quant_pos hq
  have hmin := toInt_bounds r.min
  have hmax := toInt_bounds r.max
  have hquant := toInt_bounds r.quant
  have hmem := hr.clampInt_mem x
  intro hnear
  have hdiv := Int.mul_ediv_add_emod (r.max.toInt - r.min.toInt) r.quant.toInt
  have hmod := Int.emod_nonneg (r.max.toInt - r.min.toInt) (by omega : r.quant.toInt ≠ 0)
  have hlt := Int.emod_lt_of_pos (r.max.toInt - r.min.toInt) hpos
  rw [Int.mul_comm] at hdiv
  have hlast : r.Admissible (lastGrid r.min.toInt r.max.toInt r.quant.toInt) := by
    rw [lastGrid]
    refine ⟨?_, by omega, .inr ⟨_, rfl⟩⟩
    rw [roundOffset] at h
    omega
  have hcloser := hnear.2 _ hlast
  rw [lastGrid] at hcloser
  rw [roundOffset, clampInt] at h
  rw [clampInt] at hmem
  omega

/-- A constrained element is a nearest one exactly when rounding stays in the range. -/
theorem constrained_nearest (hr : RangeProper r) (a : SaneWord) :
    Nearest r.Admissible a.toInt (constrained r a).toInt ↔ r.RoundsNearest a.toInt := by
  by_cases hq : r.quant = 0
  · rw [constrained_quant_zero hr hq]
    exact ⟨fun _ => .inl hq, fun _ => clampInt_nearest hr hq _⟩
  · have hpos := hr.quant_pos hq
    rw [SaneRange.RoundsNearest, or_iff_right hq, ← roundGrid_le_iff hpos]
    rcases Int.lt_or_le (roundOffset r (clampInt r a.toInt)) (2 ^ 32) with hlt | hge
    · rw [and_iff_left hlt]
      constructor
      · intro hnear
        have hlo := hnear.1.1
        have hhi := hnear.1.2.1
        rcases Int.lt_or_le (roundGrid r.min.toInt r.quant.toInt (clampInt r a.toInt)) (2 ^ 31)
          with hfits | hover
        · rwa [constrained_of_fits hr hq hlt hfits] at hhi
        · have hless := constrained_of_not_fits hr hq hlt hover
          omega
      · intro hle
        have hmax := toInt_bounds r.max
        rw [constrained_of_fits hr hq hlt (by omega), admissible_iff_gridPoint hq]
        exact nearest_roundGrid hpos hr.min_le hle
    · rw [constrained_of_carry hr hq hge]
      constructor
      · exact fun hnear => absurd hnear (not_nearest_of_carry hr hq hge)
      · exact fun h => absurd h.2 (by omega)

/-! ### Word lists -/

/-- How far a word is from the request. -/
def gap (w x : SaneWord) : Nat := (w.toInt - x.toInt).natAbs

/-- Words at a distance of `2 ^ 31` or more do not decide the search: either each of them has a
    nearer word that the code finds nearer, too, or there are only such words and the one that
    is taken is as near as the others. -/
def SearchNearest (ws : List SaneWord) (w : SaneWord) : Prop :=
  (∀ (i : Nat) z, ws[i]? = some z → 2 ^ 31 ≤ gap w z → gap w z ≠ 2 ^ 31 ∧
    ∃ (j : Nat) (x : SaneWord), ws[j]? = some x ∧ gap w x < 2 ^ 31 ∧
      (gap w x + gap w z < 2 ^ 32 ∨ gap w x + gap w z = 2 ^ 32 ∧ j < i)) ∨
  (∀ z ∈ ws, 2 ^ 31 ≤ gap w z) ∧
    ((∃ z ∈ ws, gap w z = 2 ^ 31) ∨ ∀ z ∈ ws, ∀ z' ∈ ws, gap w z = gap w z')

theorem gap_lt (w x : SaneWord) : gap w x < 2 ^ 32 := by
  have hw := toInt_bounds w
  have hx := toInt_bounds x
  rw [gap]
  omega

/-- The three cases of the difference. -/
theorem wordDistance_cases (w x : SaneWord) :
    gap w x < 2 ^ 31 ∧ wordDistance w x = gap w x ∨
    gap w x = 2 ^ 31 ∧ wordDistance w x = -2 ^ 31 ∨
    2 ^ 31 < gap w x ∧ wordDistance w x = 2 ^ 32 - gap w x := by
  rcases Nat.lt_trichotomy (gap w x) (2 ^ 31) with h | h | h
  · exact .inl ⟨h, wordDistance_near h⟩
  · exact .inr (.inl ⟨h, wordDistance_opposite h⟩)
  · exact .inr (.inr ⟨h, wordDistance_far h⟩)

/-- The word that is taken is a nearest one exactly when the large differences do not decide. -/
theorem taken_nearest {ws : List SaneWord} {w y : SaneWord} {k : Nat} (h : Taken ws w k y) :
    (∀ z ∈ ws, gap w y ≤ gap w z) ↔ SearchNearest ws w := by
  obtain ⟨hy, hleast⟩ := h
  have hmem : y ∈ ws := List.mem_of_getElem? hy
  constructor
  · intro hnear
    rcases wordDistance_cases w y with ⟨hyn, hyd⟩ | ⟨hyn, hyd⟩ | ⟨hyn, hyd⟩
    · refine .inl fun i z hz hfar => ?_
      obtain ⟨hle, hlt⟩ := hleast i z hz
      rcases wordDistance_cases w z with ⟨hzn, hzd⟩ | ⟨hzn, hzd⟩ | ⟨hzn, hzd⟩
      · omega
      · omega
      · refine ⟨by omega, k, y, hy, hyn, ?_⟩
        rcases Nat.lt_trichotomy k i with hki | rfl | hki
        · omega
        · rw [hy] at hz
          cases hz
          omega
        · have := hlt hki
          omega
    · exact .inr ⟨fun z hz => by have := hnear z hz; omega, .inl ⟨y, hmem, hyn⟩⟩
    · refine .inr ⟨fun z hz => by have := hnear z hz; omega, .inr ?_⟩
      have hsame : ∀ z ∈ ws, gap w z = gap w y := by
        intro z hz
        obtain ⟨i, hi⟩ := List.getElem?_of_mem hz
        have hle := (hleast i z hi).1
        have hge := hnear z hz
        rcases wordDistance_cases w z with ⟨hzn, hzd⟩ | ⟨hzn, hzd⟩ | ⟨hzn, hzd⟩ <;> omega
      intro z hz z' hz'
      rw [hsame z hz, hsame z' hz']
  · rintro (hfar | ⟨hall, hrest⟩) z hz
    · obtain ⟨i, hi⟩ := List.getElem?_of_mem hz
      have hle := (hleast i z hi).1
      have hyfar := hfar k y hy
      rcases wordDistance_cases w y with ⟨hyn, hyd⟩ | ⟨hyn, hyd⟩ | ⟨hyn, hyd⟩
      · rcases wordDistance_cases w z with ⟨hzn, hzd⟩ | ⟨hzn, hzd⟩ | ⟨hzn, hzd⟩ <;> omega
      · exact absurd hyn (hyfar (by omega)).1
      · -- a word at this distance is not taken, since a nearer one comes first
        obtain ⟨-, j, x, hx, hxn, hbetter⟩ := hyfar (by omega)
        obtain ⟨hle', hlt'⟩ := hleast j x hx
        rcases wordDistance_cases w x with ⟨hxn', hxd⟩ | ⟨hxn', hxd⟩ | ⟨hxn', hxd⟩
        · rcases hbetter with hbetter | ⟨hbetter, hjk⟩
          · omega
          · have := hlt' hjk
            omega
        · omega
        · omega
    · rcases hrest with ⟨z₀, hz₀, hopp⟩ | hsame
      · obtain ⟨i, hi⟩ := List.getElem?_of_mem hz₀
        have hle := (hleast i z₀ hi).1
        have hzfar := hall z hz
        rcases wordDistance_cases w z₀ with ⟨hn, hd⟩ | ⟨hn, hd⟩ | ⟨hn, hd⟩
        · omega
        · rcases wordDistance_cases w y with ⟨hyn, hyd⟩ | ⟨hyn, hyd⟩ | ⟨hyn, hyd⟩
          · omega
          · omega
          · have := gap_lt w y
            omega
        · omega
      · exact Nat.le_of_eq (hsame y hmem z hz)

/-! ### Values -/

/-- How many words of a value are constrained. -/
def SaneOptionDescriptor.wordCount (opt : SaneOptionDescriptor) : Nat :=
  if opt.constraintType = SANE_CONSTRAINT_RANGE then elementCount opt.size else 1

/-- A number that the constraint allows. -/
def SaneOptionDescriptor.Admissible (opt : SaneOptionDescriptor) (y : Int) : Prop :=
  match opt.constraint with
  | .range r => r.Admissible y
  | .wordList ws => ∃ x ∈ ws.tail, x.toInt = y
  | _ => True

/-- Each word that is stored is allowed, and no other allowed one is closer to the request. -/
def SaneOptionDescriptor.StoresNearest (opt : SaneOptionDescriptor)
    (value value' : List SaneByte) : Prop :=
  ∀ i < opt.wordCount, ∀ a b, loadWord value i = .ok a → loadWord value' i = .ok b →
    Nearest opt.Admissible a.toInt b.toInt

/-- No element of a range is rounded out of it, and no large difference decides which word of a
    list is taken. -/
def SaneOptionDescriptor.SearchesNearest (opt : SaneOptionDescriptor)
    (value : List SaneByte) : Prop :=
  ∀ i < opt.wordCount, ∀ a, loadWord value i = .ok a →
    match opt.constraint with
    | .range r => r.RoundsNearest a.toInt
    | .wordList ws => SearchNearest ws.tail a
    | _ => True

theorem nearest_word_iff {ws : List SaneWord} {w y : SaneWord} (hy : y ∈ ws) :
    Nearest (fun x => ∃ z ∈ ws, z.toInt = x) w.toInt y.toInt ↔ ∀ z ∈ ws, gap w y ≤ gap w z := by
  constructor
  · exact fun h z hz => h.2 _ ⟨z, hz, rfl⟩
  · rintro h
    refine ⟨⟨y, hy, rfl⟩, ?_⟩
    rintro _ ⟨z, hz, rfl⟩
    exact h z hz

variable {opt : SaneOptionDescriptor} {value : List SaneByte}

theorem range_stores_nearest (hproper : opt.ConstraintProper)
    (htype : opt.constraintType = SANE_CONSTRAINT_RANGE)
    (hlen : 4 * opt.wordCount ≤ value.length) (info : Option SaneWord) :
    ∃ value' info', saneiConstrainValue opt value info = .ok (.good, value', info') ∧
      (opt.StoresNearest value value' ↔ opt.SearchesNearest value) := by
  obtain ⟨r, hr, hproper⟩ := hproper.range htype
  have hcount : opt.wordCount = elementCount opt.size := if_pos htype
  have hfollow : followPtr opt.constraint.asRange = .ok r := by rw [hr]; rfl
  have hfit : 0 < elementCount opt.size → 4 * (0 + elementCount opt.size) ≤ value.length :=
    fun _ => by omega
  obtain ⟨value', info', hloop⟩ := constrainElements_ok hfollow hfit info
  refine ⟨value', info', ?_, ?_⟩
  · rw [saneiConstrainValue, if_pos htype, hloop]
    rfl
  · obtain ⟨-, hin, -⟩ := constrainElements_spec hloop
    rw [SaneOptionDescriptor.StoresNearest, SaneOptionDescriptor.SearchesNearest, hcount]
    have hadm : opt.Admissible = r.Admissible := by
      funext y
      rw [SaneOptionDescriptor.Admissible, hr]
    rw [hr, hadm]
    constructor
    · intro h i hi a ha
      obtain ⟨b, r', hb, hr', hb'⟩ := hin i (Nat.zero_le i) (by omega)
      rw [hfollow] at hr'
      rw [ha] at hb
      cases hr'
      cases hb
      exact (constrained_nearest hproper a).mp (h i hi _ _ ha hb')
    · intro h i hi a c ha hc
      obtain ⟨b, r', hb, hr', hb'⟩ := hin i (Nat.zero_le i) (by omega)
      rw [hfollow] at hr'
      rw [ha] at hb
      rw [hb'] at hc
      cases hr'
      cases hb
      cases hc
      exact (constrained_nearest hproper a).mpr (h i hi a ha)

theorem wordList_stores_nearest (hproper : opt.ConstraintProper)
    (htype : opt.constraintType = SANE_CONSTRAINT_WORD_LIST)
    (hlen : 4 * opt.wordCount ≤ value.length) (info : Option SaneWord) :
    ∃ value' info', saneiConstrainValue opt value info = .ok (.good, value', info') ∧
      (opt.StoresNearest value value' ↔ opt.SearchesNearest value) := by
  have hrange : opt.constraintType ≠ SANE_CONSTRAINT_RANGE := by rw [htype]; decide
  obtain ⟨n, ws, hws, hn, hne⟩ := hproper.wordList htype
  have hcount : opt.wordCount = 1 := if_neg hrange
  have hfit : 4 * 0 + 4 ≤ value.length := by omega
  obtain ⟨w, hw⟩ := loadWord_ok hfit
  obtain ⟨k, y, htaken, hrun⟩ := constrainWord_run htype hws hn hne hw info
  have hy : y ∈ ws := List.mem_of_getElem? htaken.1
  have hadm : opt.Admissible = fun x => ∃ z ∈ ws, z.toInt = x := by
    funext x
    rw [SaneOptionDescriptor.Admissible, hws]
    rfl
  have hstores : ∀ {value'}, loadWord value' 0 = .ok y →
      (opt.StoresNearest value value' ↔ opt.SearchesNearest value) := by
    intro value' hload
    rw [SaneOptionDescriptor.StoresNearest, SaneOptionDescriptor.SearchesNearest, hcount, hadm,
      hws]
    constructor
    · intro h i hi a ha
      obtain rfl : i = 0 := by omega
      rw [hw] at ha
      cases ha
      exact (taken_nearest htaken).mp ((nearest_word_iff hy).mp (h 0 hi _ _ hw hload))
    · intro h i hi a b ha hb
      obtain rfl : i = 0 := by omega
      rw [hload] at hb
      cases hb
      rw [hw] at ha
      cases ha
      exact (nearest_word_iff hy).mpr ((taken_nearest htaken).mpr (h 0 hi _ hw))
  rcases hrun with ⟨rfl, hrun⟩ | ⟨-, stored, hstored, hrun⟩
  · exact ⟨value, info, hrun, hstores hw⟩
  · refine ⟨stored, _, hrun, hstores ?_⟩
    rw [loadWord_storeWord hstored, if_pos rfl]

/-- `sanei_constrain_value` stores nearest values exactly when rounding stays in the range and
    large differences do not decide. -/
theorem constrain_stores_nearest (hproper : opt.ConstraintProper)
    (htype : opt.constraintType = SANE_CONSTRAINT_RANGE ∨
      opt.constraintType = SANE_CONSTRAINT_WORD_LIST)
    (hlen : 4 * opt.wordCount ≤ value.length) (info : Option SaneWord) :
    ∃ value' info', saneiConstrainValue opt value info = .ok (.good, value', info') ∧
      (opt.StoresNearest value value' ↔ opt.SearchesNearest value) := by
  rcases htype with htype | htype
  · exact range_stores_nearest hproper htype hlen info
  · exact wordList_stores_nearest hproper htype hlen info

theorem steppedOption_proper : steppedOption.ConstraintProper where
  range _ := ⟨_, rfl, by decide, by decide⟩
  wordList h := absurd h (by decide)
  stringList h := absurd h (by decide)
  size _ _ := by decide

theorem constrain_stores_nearest_nine :
    saneiConstrainValue steppedOption (hostBytes 9) none = .ok (.good, hostBytes 8, none) ∧
      steppedOption.StoresNearest (hostBytes 9) (hostBytes 8) := by
  have hrun : saneiConstrainValue steppedOption (hostBytes 9) none =
      .ok (.good, hostBytes 8, none) := by decide
  obtain ⟨value', info', hrun', hnearest⟩ :=
    @constrain_stores_nearest _ (hostBytes 9) steppedOption_proper (.inl rfl) (by decide) none
  rw [hrun] at hrun'
  cases hrun'
  refine ⟨hrun, hnearest.mpr fun i hi a ha => ?_⟩
  obtain rfl : i = 0 := Nat.lt_one_iff.mp hi
  have hnine : loadWord (hostBytes 9) 0 = .ok 9 := by decide
  rw [hnine] at ha
  cases ha
  exact .inr ⟨by decide, by decide⟩

/-- The least word and ten more. -/
def farOption : SaneOptionDescriptor :=
  ⟨.null, .null, .null, SANE_TYPE_INT, 0, 4, 0, SANE_CONSTRAINT_WORD_LIST,
    .wordList [2, 0x80000000, 0x8000000A]⟩

/-- Ten becomes twelve, which the range does not allow; and of two words the one that is farther
    from the greatest word is taken for it. -/
theorem constrain_stores_nearest_ten :
    (saneiConstrainValue steppedOption (hostBytes 10) none = .ok (.good, hostBytes 12, none) ∧
      ¬ steppedOption.StoresNearest (hostBytes 10) (hostBytes 12)) ∧
    saneiConstrainValue farOption (hostBytes 0x7FFFFFFF) none =
        .ok (.good, hostBytes 0x80000000, none) ∧
      ¬ farOption.StoresNearest (hostBytes 0x7FFFFFFF) (hostBytes 0x80000000) := by
  refine ⟨⟨by decide, fun h => ?_⟩, by decide, fun h => ?_⟩
  · have hmem := (h 0 (by decide) 10 12 (by decide) (by decide)).1
    exact absurd hmem.2.1 (by decide)
  · have hnear := (h 0 (by decide) 0x7FFFFFFF 0x80000000 (by decide) (by decide)).2
    exact absurd (hnear _ ⟨0x8000000A, by decide, rfl⟩) (by decide)

end SaneBackends
