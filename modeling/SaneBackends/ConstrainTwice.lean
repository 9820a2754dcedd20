import SaneBackends.NearestValue

/-!
# Accepted values and values constrained twice

A value that `sanei_check_value` accepts should be left alone by `sanei_constrain_value`, and so
should a value that has been constrained before.  Which constraints have this property: ranges
whose points do not overflow, word lists without two words that are `2 ^ 31` apart, and string
lists without two strings that differ in case only.
-/

namespace SaneBackends

open FaultState GridRounding SignedWords WordBytes Overwrite

/-- An accepted value stays as it is, and nothing is recorded in `*info`. -/
def SaneOptionDescriptor.KeepsAccepted (opt : SaneOptionDescriptor) : Prop :=
  ∀ value info, saneiCheckValue opt value = .ok .good →
    saneiConstrainValue opt value info = .ok (.good, value, info)

/-- Constraining a value again does not change it any more. -/
def SaneOptionDescriptor.ConstrainsOnce (opt : SaneOptionDescriptor) : Prop :=
  ∀ value info st value' info', saneiConstrainValue opt value info = .ok (st, value', info') →
    ∀ info₁, ∃ st' info₂, saneiConstrainValue opt value' info₁ = .ok (st', value', info₂)

/-! ### Ranges: one element -/

/-- How far behind the least number rounding can go. -/
def pointReach (r : SaneRange) : Int :=
  min (r.max.toInt - r.min.toInt + r.quant.toInt / 2) (2 ^ 32 - 1) / r.quant.toInt * r.quant.toInt

/-- The farthest point is a word, and rounding it (or the end of the range in front of it) again
    does not carry. -/
def RangeCoherent (r : SaneRange) : Prop :=
  r.quant = 0 ∨ r.min.toInt + pointReach r < 2 ^ 31 ∧
    min (pointReach r) (r.max.toInt - r.min.toInt) + r.quant.toInt / 2 < 2 ^ 32

variable {r : SaneRange} {a : SaneWord}

theorem clampInt_of_mem {x : Int} (h₁ : r.min.toInt ≤ x) (h₂ : x ≤ r.max.toInt) :
    clampInt r x = x := by
  rw [clampInt]
  omega

/-- The least number stays. -/
theorem constrained_min (hr : RangeProper r) : constrained r r.min = r.min := by
  have hclamp := clampInt_of_mem (Int.le_refl _) hr.min_le
  apply BitVec.eq_of_toInt_eq
  by_cases hq : r.quant = 0
  · rw [constrained_quant_zero hr hq, hclamp]
  · have hpos := hr.quant_pos hq
    have hmin := toInt_bounds r.min
    have hquant := toInt_bounds r.quant
    have hround := @roundGrid_lo r.min.toInt r.quant.toInt hpos
    rw [constrained_of_fits hr hq, hclamp, hround]
    · rw [hclamp, roundOffset]
      omega
    · rw [hclamp, hround]
      exact hmin.2

theorem constrained_of_lt (hr : RangeProper r) (h : a.toInt < r.min.toInt) :
    constrained r a = r.min := by
  have hle := hr.min_le
  have hsame : clamped r a = clamped r r.min := by
    apply BitVec.eq_of_toInt_eq
    rw [hr.clamped_toInt, hr.clamped_toInt, clampInt, clampInt]
    omega
  rw [constrained_eq, hsame, ← constrained_eq, constrained_min hr]

/-- Rounding an element a second time. -/
theorem constrained_twice (hr : RangeProper r) (hq : r.quant ≠ 0) (a : SaneWord) :
    constrained r (constrained r a) = constrained r a ↔
      2 ^ 32 ≤ roundOffset r (clampInt r a.toInt) ∨
      roundGrid r.min.toInt r.quant.toInt (clampInt r a.toInt) < 2 ^ 31 ∧
        min (roundGrid r.min.toInt r.quant.toInt (clampInt r a.toInt)) r.max.toInt - r.min.toInt +
          r.quant.toInt / 2 < 2 ^ 32 := by
  have hpos := hr.quant_pos hq
  have hle := hr.min_le
  have hquant := toInt_bounds r.quant
  rcases Int.lt_or_le (roundOffset r (clampInt r a.toInt)) (2 ^ 32) with hlt | hge
  · have hbounds := roundGrid_bounds hr hq a.toInt
    have hmem := hr.clampInt_mem a.toInt
    rw [or_iff_right (by omega)]
    rcases Int.lt_or_le (roundGrid r.min.toInt r.quant.toInt (clampInt r a.toInt)) (2 ^ 31)
      with hfits | hover
    · rw [and_iff_right hfits]
      have hone := constrained_of_fits hr hq hlt hfits
      generalize hR : roundGrid r.min.toInt r.quant.toInt (clampInt r a.toInt) = point at *
      have hclamp : clampInt r (constrained r a).toInt = min point r.max.toInt := by
        rw [hone, clampInt]
        omega
      have hoffset : roundOffset r (clampInt r (constrained r a).toInt) =
          min point r.max.toInt - r.min.toInt + r.quant.toInt / 2 := by rw [hclamp, roundOffset]
      have hround : roundGrid r.min.toInt r.quant.toInt (min point r.max.toInt) = point := by
        rcases Int.le_total point r.max.toInt with hin | hout
        · rw [Int.min_eq_left hin, ← hR, roundGrid_roundGrid hpos]
        · rw [Int.min_eq_right hout, ← hR]
          exact roundGrid_between hpos hmem.2 (by omega)
      constructor
      · intro hsame
        by_contra hcarry
        have hmin : constrained r (constrained r a) = r.min :=
          constrained_of_carry hr hq (by omega)
        have hpoint : point = r.min.toInt := by rw [← hone, ← hsame, hmin]
        omega
      · intro hsmall
        apply BitVec.eq_of_toInt_eq
        rw [constrained_of_fits hr hq (by omega) (by rw [hclamp, hround]; exact hfits), hclamp,
          hround, hone]
    · have hless := constrained_of_not_fits hr hq hlt hover
      refine ⟨fun hsame => ?_, fun h => absurd h.1 (by omega)⟩
      have hagain := constrained_of_lt hr hless
      rw [hsame] at hagain
      rw [hagain] at hless
      exact absurd hless (Int.lt_irrefl _)
  · rw [constrained_of_carry hr hq hge, constrained_min hr]
    exact ⟨fun _ => .inl hge, fun _ => rfl⟩

/-- No element changes when it is rounded again exactly when the points of the range fit. -/
theorem constrained_twice_all (hr : RangeProper r) :
    (∀ a, constrained r (constrained r a) = constrained r a) ↔ RangeCoherent r := by
  by_cases hq : r.quant = 0
  · refine ⟨fun _ => .inl hq, fun _ a => ?_⟩
    have hmem := hr.clampInt_mem a.toInt
    apply BitVec.eq_of_toInt_eq
    rw [constrained_quant_zero hr hq, constrained_quant_zero hr hq,
      clampInt_of_mem hmem.1 hmem.2]
  have hpos := hr.quant_pos hq
  have hle := hr.min_le
  have hmin := toInt_bounds r.min
  have hmax := toInt_bounds r.max
  have hquant := toInt_bounds r.quant
  rw [RangeCoherent, or_iff_right hq]
  constructor
  · intro hall
    -- the element with the greatest sum that does not carry
    let c := min (r.max.toInt - r.min.toInt + r.quant.toInt / 2) (2 ^ 32 - 1) -
      r.quant.toInt / 2 + r.min.toInt
    have hc : c = min (r.max.toInt - r.min.toInt + r.quant.toInt / 2) (2 ^ 32 - 1) -
      r.quant.toInt / 2 + r.min.toInt := rfl
    have ha : (BitVec.ofInt 32 c).toInt = c := by
      rw [BitVec.toInt_ofInt]
      exact bmod_of_fits (by omega) (by omega)
    have hclamp : clampInt r c = c := clampInt_of_mem (by omega) (by omega)
    have hoffset : roundOffset r c =
        min (r.max.toInt - r.min.toInt + r.quant.toInt / 2) (2 ^ 32 - 1) := by
      rw [roundOffset]
      omega
    have hround : roundGrid r.min.toInt r.quant.toInt c = r.min.toInt + pointReach r := by
      change r.min.toInt + roundOffset r c / r.quant.toInt * r.quant.toInt = _
      rw [hoffset]
      rfl
    have htwice := (constrained_twice hr hq (BitVec.ofInt 32 c)).mp (hall _)
    rw [ha, hclamp, hoffset, hround, or_iff_right (by omega)] at htwice
    omega
  · rintro ⟨hfits, hcarry⟩ a
    rw [constrained_twice hr hq a]
    rcases Int.lt_or_le (roundOffset r (clampInt r a.toInt)) (2 ^ 32) with hlt | hge
    · have hmem := hr.clampInt_mem a.toInt
      have hreach : roundOffset r (clampInt r a.toInt) / r.quant.toInt * r.quant.toInt ≤
          pointReach r := by
        refine Int.mul_le_mul_of_nonneg_right (Int.ediv_le_ediv hpos ?_) (by omega)
        rw [roundOffset] at hlt ⊢
        omega
      have hround : roundGrid r.min.toInt r.quant.toInt (clampInt r a.toInt) = r.min.toInt +
        roundOffset r (clampInt r a.toInt) / r.quant.toInt * r.quant.toInt := rfl
      omega
    · exact .inl hge

/-- An element that the check accepts is not replaced. -/
theorem constrainElement_of_allowed {range : Ptr SaneRange} (hr : followPtr range = .ok r)
    (h : rangeAllows range a = .ok true) (info : Option SaneWord) :
    constrainElement r a info = (a, info) := by
  rw [rangeAllows, hr] at h
  simp only [bind, Except.bind, pure, Except.pure] at h
  split_ifs at h with hout hq
  · cases h
  · rw [Bool.or_eq_true, not_or, Bool.not_eq_true, Bool.not_eq_true] at hout
    have hsame : quantize r a = a := by simpa using h
    simp [constrainElement, replaceIf, hout.1, hout.2, hsame]
  · rw [Bool.or_eq_true, not_or, Bool.not_eq_true, Bool.not_eq_true] at hout
    simp [constrainElement, replaceIf, hout.1, hout.2, not_not.mp hq]

/-! ### Ranges: the loop -/

/-- Storing the word that is there already. -/
theorem storeWord_loadWord {value : List SaneByte} {i : Nat} (h : loadWord value i = .ok a) :
    storeWord value i a = .ok value := by
  have hlen := loadWord_eq_ok h
  rw [loadWord, if_pos hlen] at h
  cases h
  have hfour : ((value.drop (4 * i)).take 4).reverse.length = 4 := by
    rw [List.length_reverse, List.length_take, List.length_drop]
    omega
  have hbytes : hostBytes (ofBytesBE ((value.drop (4 * i)).take 4).reverse) =
      (value.drop (4 * i)).take 4 := by
    rw [hostBytes, bytesBE_ofBytesBE hfour, List.reverse_reverse]
  rw [storeWord, if_pos hlen, hbytes]
  have hcount : ((value.drop (4 * i)).take 4).length = 4 := by
    rw [List.length_take, List.length_drop]
    omega
  rw [overwrite, hcount, List.append_assoc, ← List.drop_drop, List.take_append_drop,
    List.take_append_drop]

/-- A value stays as it is when constraining its elements does not change them. -/
theorem constrainElements_fixed {range : Ptr SaneRange} (hr : followPtr range = .ok r)
    {n i : Nat} {value : List SaneByte} (h : ∀ j, i ≤ j → j < i + n → ∃ a,
      loadWord value j = .ok a ∧ constrained r a = a) (info : Option SaneWord) :
    ∃ info', constrainElements range n i value info = .ok (value, info') := by
  induction n generalizing i info with
  | zero => exact ⟨info, rfl⟩
  | succ n ih =>
    obtain ⟨a, ha, hsame⟩ := h i (Nat.le_refl i) (by omega)
    have hlater : ∀ j, i + 1 ≤ j → j < i + 1 + n → ∃ a,
        loadWord value j = .ok a ∧ constrained r a = a :=
      fun j h₁ h₂ => h j (by omega) (by omega)
    obtain ⟨info', hrest⟩ := ih hlater (constrainElement r a info).2
    refine ⟨info', bind_eq_ok.mpr ⟨a, ha, bind_eq_ok.mpr ⟨r, hr, bind_eq_ok.mpr ⟨value, ?_,
      hrest⟩⟩⟩⟩
    rw [constrainElement_fst, hsame]
    exact storeWord_loadWord ha

theorem constrainElements_of_allowed {range : Ptr SaneRange} (hr : followPtr range = .ok r)
    {n i : Nat} {value : List SaneByte} (h : ∀ j, i ≤ j → j < i + n → ∃ a,
      loadWord value j = .ok a ∧ rangeAllows range a = .ok true) (info : Option SaneWord) :
    constrainElements range n i value info = .ok (value, info) := by
  induction n generalizing i with
  | zero => rfl
  | succ n ih =>
    obtain ⟨a, ha, hallowed⟩ := h i (Nat.le_refl i) (by omega)
    have helem := constrainElement_of_allowed hr hallowed info
    refine bind_eq_ok.mpr ⟨a, ha, bind_eq_ok.mpr ⟨r, hr, bind_eq_ok.mpr ⟨value, ?_, ?_⟩⟩⟩
    · rw [helem]
      exact storeWord_loadWord ha
    · rw [helem]
      exact ih fun j h₁ h₂ => h j (by omega) (by omega)

variable {opt : SaneOptionDescriptor}

theorem constrainRange_eq (htype : opt.constraintType = SANE_CONSTRAINT_RANGE)
    (value : List SaneByte) (info : Option SaneWord) :
    saneiConstrainValue opt value info =
      (constrainElements opt.constraint.asRange (elementCount opt.size) 0 value info).map
        fun e => (.good, e.1, e.2) := by
  rw [saneiConstrainValue, if_pos htype]
  cases constrainElements opt.constraint.asRange (elementCount opt.size) 0 value info with
  | error e => rfl
  | ok e => rfl

theorem range_keepsAccepted (htype : opt.constraintType = SANE_CONSTRAINT_RANGE)
    (hr : opt.constraint = .range r) : opt.KeepsAccepted := by
  intro value info hcheck
  have hfollow : followPtr opt.constraint.asRange = .ok r := by rw [hr]; rfl
  rw [saneiCheckValue, if_pos htype, checkElements_eq_good] at hcheck
  rw [constrainRange_eq htype, constrainElements_of_allowed hfollow hcheck]
  rfl

/-- A value that begins with a given word. -/
theorem exists_value (a : SaneWord) (n : Nat) :
    ∃ value : List SaneByte, 4 * n ≤ value.length ∧ loadWord value 0 = .ok a := by
  refine ⟨hostBytes a ++ List.replicate (4 * n) 0, ?_, ?_⟩
  · rw [List.length_append, List.length_replicate]
    omega
  · have hlen : (hostBytes a).length = 4 := rfl
    rw [loadWord, if_pos (by rw [List.length_append, hlen]; omega), Nat.mul_zero, List.drop_zero,
      ← hlen, List.take_left, ofBytesBE_hostBytes]

theorem range_constrainsOnce (hproper : opt.ConstraintProper)
    (htype : opt.constraintType = SANE_CONSTRAINT_RANGE) (hr : opt.constraint = .range r) :
    opt.ConstrainsOnce ↔ RangeCoherent r := by
  obtain ⟨r', hr', hrange⟩ := hproper.range htype
  rw [hr] at hr'
  cases hr'
  have hfollow : followPtr opt.constraint.asRange = .ok r := by rw [hr]; rfl
  have hpos := hproper.elementCount_pos (.inl htype)
  rw [← constrained_twice_all hrange]
  constructor
  · intro honce a
    obtain ⟨value, hlen, ha⟩ := exists_value a (elementCount opt.size)
    have hfit : 0 < elementCount opt.size → 4 * (0 + elementCount opt.size) ≤ value.length :=
      fun _ => by omega
    obtain ⟨value', info', hloop⟩ := constrainElements_ok hfollow hfit none
    have hrun : saneiConstrainValue opt value none = .ok (.good, value', info') := by
      rw [constrainRange_eq htype, hloop]
      rfl
    obtain ⟨st', info₂, hagain⟩ := honce value none _ _ _ hrun none
    rw [constrainRange_eq htype] at hagain
    obtain ⟨-, hin, -⟩ := constrainElements_spec hloop
    obtain ⟨b, s, hb, hs, hfirst⟩ := hin 0 (Nat.le_refl 0) (by omega)
    rw [ha] at hb
    rw [hfollow] at hs
    cases hb
    cases hs
    cases hloop' : constrainElements opt.constraint.asRange (elementCount opt.size) 0 value' none
      with
    | error e =>
      rw [hloop'] at hagain
      cases hagain
    | ok e =>
      rw [hloop'] at hagain
      cases hagain
      obtain ⟨-, hin', -⟩ := constrainElements_spec hloop'
      obtain ⟨b, s, hb, hs, hsecond⟩ := hin' 0 (Nat.le_refl 0) (by omega)
      rw [hfirst] at hb
      rw [hfollow] at hs
      cases hb
      cases hs
      rw [hfirst] at hsecond
      exact (Except.ok.inj hsecond).symm
  · intro hsame value info st value' info' hrun info₁
    rw [constrainRange_eq htype] at hrun
    cases hloop : constrainElements opt.constraint.asRange (elementCount opt.size) 0 value info
      with
    | error e =>
      rw [hloop] at hrun
      cases hrun
    | ok e =>
      rw [hloop] at hrun
      cases hrun
      obtain ⟨-, hin, -⟩ := constrainElements_spec hloop
      obtain ⟨info₂, hagain⟩ := constrainElements_fixed hfollow (fun j h₁ h₂ => by
        obtain ⟨a, s, ha, hs, ha'⟩ := hin j h₁ h₂
        rw [hfollow] at hs
        cases hs
        exact ⟨_, ha', hsame a⟩) info₁
      exact ⟨.good, info₂, by rw [constrainRange_eq htype, hagain]; rfl⟩

/-! ### Word lists -/

variable {ws : List SaneWord} {w y : SaneWord} {k : Nat}

theorem gap_self (w : SaneWord) : gap w w = 0 := by
  rw [gap, Int.sub_self]
  rfl

/-- A word of the list is taken for itself unless there is one opposite to it. -/
theorem Taken.eq_self (h : Taken ws w k y) (hw : w ∈ ws) (hopp : ∀ z ∈ ws, gap w z ≠ 2 ^ 31) :
    y = w := by
  obtain ⟨i, hi⟩ := List.getElem?_of_mem hw
  have hle := (h.2 i w hi).1
  have hself : wordDistance w w = 0 := by
    rcases wordDistance_cases w w with ⟨-, hd⟩ | ⟨hn, -⟩ | ⟨hn, -⟩
    · rw [hd, gap_self]
      rfl
    · rw [gap_self] at hn
      cases hn
    · rw [gap_self] at hn
      cases hn
  have hlt := gap_lt w y
  apply BitVec.eq_of_toInt_eq
  rcases wordDistance_cases w y with ⟨-, hd⟩ | ⟨hn, -⟩ | ⟨hn, hd⟩
  · have hgap : gap w y = 0 := by omega
    rw [gap] at hgap
    omega
  · exact absurd hn (hopp y (List.mem_of_getElem? h.1))
  · omega

/-- The check finds only words of the list. -/
theorem mem_of_wordListHas {n : SaneWord} {i c : Nat} (hi : 1 ≤ i)
    (h : wordListHas (n :: ws) w c i = .ok .good) : w ∈ ws := by
  induction c generalizing i with
  | zero =>
    obtain ⟨x, hx, h⟩ := bind_eq_ok.mp h
    split_ifs at h with heq
    · subst heq
      obtain ⟨i, rfl⟩ : ∃ j, i = j + 1 := ⟨i - 1, by omega⟩
      exact List.mem_of_getElem? (wordIn_eq_ok.mp hx)
    · cases h
  | succ c ih =>
    obtain ⟨x, hx, h⟩ := bind_eq_ok.mp h
    split_ifs at h with heq
    · subst heq
      obtain ⟨i, rfl⟩ : ∃ j, i = j + 1 := ⟨i - 1, by omega⟩
      exact List.mem_of_getElem? (wordIn_eq_ok.mp hx)
    · exact ih (by omega) h

/-- The words of the list are accepted. -/
theorem checkWord_iff {n : SaneWord} {value : List SaneByte}
    (htype : opt.constraintType = SANE_CONSTRAINT_WORD_LIST)
    (hws : opt.constraint = .wordList (n :: ws)) (hn : n.toInt = ws.length) (hne : ws ≠ []) :
    saneiCheckValue opt value = .ok .good ↔ ∃ w ∈ ws, loadWord value 0 = .ok w := by
  have hrange : opt.constraintType ≠ SANE_CONSTRAINT_RANGE := by rw [htype]; decide
  rw [saneiCheckValue, if_neg hrange, if_pos htype, hws]
  constructor
  · intro h
    obtain ⟨w, hw, h⟩ := bind_eq_ok.mp h
    obtain ⟨list, hlist, h⟩ := bind_eq_ok.mp h
    cases hlist
    obtain ⟨count, -, h⟩ := bind_eq_ok.mp h
    exact ⟨w, mem_of_wordListHas (Nat.le_refl 1) h, hw⟩
  · rintro ⟨w, hmem, hw⟩
    obtain ⟨k, hk⟩ := List.getElem?_of_mem hmem
    have hin : wordIn (n :: ws) (k + 1) = .ok w := wordIn_eq_ok.mpr hk
    rw [hw]
    exact wordList_then_check hn hne hin (by omega)

theorem wordList_keeps_and_once {n : SaneWord}
    (htype : opt.constraintType = SANE_CONSTRAINT_WORD_LIST)
    (hws : opt.constraint = .wordList (n :: ws)) (hn : n.toInt = ws.length) (hne : ws ≠ []) :
    (opt.KeepsAccepted ∧ opt.ConstrainsOnce) ↔ ∀ w ∈ ws, ∀ z ∈ ws, gap w z ≠ 2 ^ 31 := by
  constructor
  · rintro ⟨hkeeps, -⟩ w hw z hz hopp
    obtain ⟨value, hlen, hload⟩ := exists_value w 1
    have hcheck := (checkWord_iff htype hws hn hne).mpr ⟨w, hw, hload⟩
    have hkept := hkeeps value none hcheck
    obtain ⟨k, y, htaken, ⟨rfl, -⟩ | ⟨hwy, value', hstored, hrun⟩⟩ :=
      constrainWord_run htype hws hn hne hload none
    · obtain ⟨i, hi⟩ := List.getElem?_of_mem hz
      have hle := (htaken.2 i z hi).1
      rcases wordDistance_cases w w with ⟨-, hd⟩ | ⟨hself, -⟩ | ⟨hself, -⟩
      · have hopposite : wordDistance w z = -2 ^ 31 := wordDistance_opposite hopp
        omega
      · rw [gap_self] at hself
        cases hself
      · rw [gap_self] at hself
        cases hself
    · rw [hkept] at hrun
      cases hrun
      have hagain := @loadWord_storeWord _ _ _ 0 _ hstored
      rw [if_pos rfl, hload] at hagain
      exact hwy (Except.ok.inj hagain)
  · intro hopp
    constructor
    · intro value info hcheck
      obtain ⟨w, hw, hload⟩ := (checkWord_iff htype hws hn hne).mp hcheck
      obtain ⟨k, y, htaken, ⟨rfl, hrun⟩ | ⟨hwy, -⟩⟩ :=
        constrainWord_run htype hws hn hne hload info
      · exact hrun
      · exact absurd (htaken.eq_self hw (hopp w hw)).symm hwy
    · intro value info st value' info' hrun info₁
      have hload : ∃ w, loadWord value 0 = .ok w := by
        have hrange : opt.constraintType ≠ SANE_CONSTRAINT_RANGE := by rw [htype]; decide
        rw [saneiConstrainValue, if_neg hrange, if_pos htype] at hrun
        obtain ⟨w, hw, -⟩ := bind_eq_ok.mp hrun
        exact ⟨w, hw⟩
      obtain ⟨w, hload⟩ := hload
      -- after the first time the value is a word of the list
      have hfirst : ∃ y ∈ ws, loadWord value' 0 = .ok y := by
        obtain ⟨k, y, htaken, ⟨rfl, hrun'⟩ | ⟨-, stored, hstored, hrun'⟩⟩ :=
          constrainWord_run htype hws hn hne hload info
        · rw [hrun] at hrun'
          cases hrun'
          exact ⟨w, List.mem_of_getElem? htaken.1, hload⟩
        · rw [hrun] at hrun'
          cases hrun'
          exact ⟨y, List.mem_of_getElem? htaken.1, by rw [loadWord_storeWord hstored, if_pos rfl]⟩
      obtain ⟨y, hy, hload'⟩ := hfirst
      obtain ⟨k, y', htaken, ⟨-, hagain⟩ | ⟨hne', -⟩⟩ :=
        constrainWord_run htype hws hn hne hload' info₁
      · exact ⟨_, _, hagain⟩
      · exact absurd (htaken.eq_self hy (hopp y hy)).symm hne'

/-! ### String lists -/

/-- The search does not see the case of the value. -/
theorem matchStrings_congr {value value' : List SaneByte} {blocks : List (List SaneByte)}
    (hv : 0 ∈ value) (hv' : 0 ∈ value') (h : EqualNoCase value value')
    (hblocks : ∀ s ∈ blocks, 0 ∈ s) (num : Nat) (last : Option (List SaneByte)) :
    matchStrings value (cString value).length (stringBlocks blocks) num last =
      matchStrings value' (cString value').length (stringBlocks blocks) num last := by
  have hlen : (cString value).length = (cString value').length := by
    simpa using congrArg List.length h
  rw [hlen]
  induction blocks generalizing num last with
  | nil => rfl
  | cons b blocks ih =>
    have hb : 0 ∈ b := hblocks b (by simp)
    have hrest : ∀ s ∈ blocks, 0 ∈ s := fun s hs => hblocks s (by simp [hs])
    have hsame : AbbreviatesNoCase value b ↔ AbbreviatesNoCase value' b := by
      rw [AbbreviatesNoCase, AbbreviatesNoCase, h]
    have hcmp : strncasecmpEqual value b (cString value').length =
        strncasecmpEqual value' b (cString value').length := by
      rw [strncasecmpEqual_eq hv' hb, ← hlen, strncasecmpEqual_eq hv hb]
      simp only [hsame]
    change matchStrings value _ (.block b :: stringBlocks blocks) num last =
      matchStrings value' _ (.block b :: stringBlocks blocks) num last
    rw [matchStrings, matchStrings, hcmp, ih hrest num last, ih hrest (num + 1) (some b)]

/-- The check finds only strings of the list. -/
theorem eq_of_stringListHas {value : List SaneByte} {blocks : List (List SaneByte)}
    (hv : 0 ∈ value) (hblocks : ∀ s ∈ blocks, 0 ∈ s)
    (h : stringListHas value (cString value).length (stringBlocks blocks) = .ok .good) :
    ∃ s ∈ blocks, cString value = cString s := by
  induction blocks with
  | nil => cases h
  | cons b blocks ih =>
    have hb : 0 ∈ b := hblocks b (by simp)
    change stringListHas value _ (.block b :: stringBlocks blocks) = _ at h
    rw [stringListHas, strncmpEqual_eq hv hb, strlen_of_mem hb] at h
    by_cases heq : cString value = cString b
    · exact ⟨b, by simp, heq⟩
    · have hlater : stringListHas value (cString value).length (stringBlocks blocks) =
          .ok .good := by
        by_cases htake : cString value = (cString b).take (cString value).length
        · have hlen : (cString value).length ≠ (cString b).length := by
            intro hlen
            rw [hlen, List.take_length] at htake
            exact heq htake
          simpa [bind, Except.bind, ← htake, hlen] using h
        · simpa [bind, Except.bind, htake] using h
      obtain ⟨s, hs, hval⟩ := ih (fun s hs => hblocks s (by simp [hs])) hlater
      exact ⟨s, by simp [hs], hval⟩

variable {blocks : List (List SaneByte)}

theorem constrainString_eq (htype : opt.constraintType = SANE_CONSTRAINT_STRING_LIST)
    (hss : opt.constraint = .stringList (stringBlocks blocks)) {value : List SaneByte}
    (hv : 0 ∈ value) (info : Option SaneWord) :
    saneiConstrainValue opt value info = (do
      match ← matchStrings value (cString value).length (stringBlocks blocks) 0 none with
      | .exact s =>
          if ← strcmpEqual value s then return (.good, value, info)
          else return (.good, ← strcpy value s, info)
      | .counted numMatches lastMatch =>
          if numMatches > 1 then return (.inval, value, info)
          else if numMatches = 1 then
            match lastMatch with
            | some s => return (.good, ← strcpy value s, info)
            | none => throw .outOfBounds
          else return (.inval, value, info)) := by
  have h₁ : opt.constraintType ≠ SANE_CONSTRAINT_RANGE := by rw [htype]; decide
  have h₂ : opt.constraintType ≠ SANE_CONSTRAINT_WORD_LIST := by rw [htype]; decide
  rw [saneiConstrainValue, if_neg h₁, if_neg h₂, if_pos htype, strlen_of_mem hv, hss]
  rfl

/-- A string of the list stays as it is if the others differ from it in more than case. -/
theorem constrainString_fixed (htype : opt.constraintType = SANE_CONSTRAINT_STRING_LIST)
    (hss : opt.constraint = .stringList (stringBlocks blocks)) (hblocks : ∀ s ∈ blocks, 0 ∈ s)
    (hcase : ∀ s ∈ blocks, ∀ t ∈ blocks, EqualNoCase s t → cString s = cString t)
    {value s : List SaneByte} (hv : 0 ∈ value) (hs : s ∈ blocks) (hval : cString value = cString s)
    (info : Option SaneWord) : saneiConstrainValue opt value info = .ok (.good, value, info) := by
  rw [constrainString_eq htype hss hv]
  rcases matchStrings_spec hv hblocks 0 none with ⟨t, ht, heq, hrun⟩ | ⟨hnone, -⟩
  · have hsame : cString value = cString t := by
      rw [EqualNoCase, hval] at heq
      rw [hval]
      exact hcase s hs t ht heq
    rw [hrun]
    simp [bind, Except.bind, pure, Except.pure, strcmpEqual_eq hv (hblocks t ht), hsame]
  · refine absurd ?_ (hnone s hs)
    rw [EqualNoCase, hval]

theorem checkString_iff (htype : opt.constraintType = SANE_CONSTRAINT_STRING_LIST)
    (hss : opt.constraint = .stringList (stringBlocks blocks)) (hblocks : ∀ s ∈ blocks, 0 ∈ s)
    {value : List SaneByte} :
    saneiCheckValue opt value = .ok .good ↔
      0 ∈ value ∧ ∃ s ∈ blocks, cString value = cString s := by
  have h₁ : opt.constraintType ≠ SANE_CONSTRAINT_RANGE := by rw [htype]; decide
  have h₂ : opt.constraintType ≠ SANE_CONSTRAINT_WORD_LIST := by rw [htype]; decide
  rw [saneiCheckValue, if_neg h₁, if_neg h₂, if_pos htype, hss]
  constructor
  · intro h
    obtain ⟨len, hlen, h⟩ := bind_eq_ok.mp h
    obtain ⟨hv, rfl⟩ := strlen_eq_ok.mp hlen
    exact ⟨hv, eq_of_stringListHas hv hblocks h⟩
  · rintro ⟨hv, s, hs, hval⟩
    exact stringList_then_check hblocks hs hval hv

/-- Two strings that are equal apart from case are taken for the same one. -/
theorem cString_eq_of_keepsAccepted (htype : opt.constraintType = SANE_CONSTRAINT_STRING_LIST)
    (hss : opt.constraint = .stringList (stringBlocks blocks)) (hblocks : ∀ s ∈ blocks, 0 ∈ s)
    (hkeeps : opt.KeepsAccepted) {s : List SaneByte} (hs : s ∈ blocks) :
    ∃ u, matchStrings s (cString s).length (stringBlocks blocks) 0 none = .ok (.exact u) ∧
      cString s = cString u := by
  have hv := hblocks s hs
  have hcheck := (checkString_iff htype hss hblocks).mpr ⟨hv, s, hs, rfl⟩
  have hrun := hkeeps s none hcheck
  rw [constrainString_eq htype hss hv] at hrun
  rcases matchStrings_spec hv hblocks 0 none with ⟨u, hu, -, hexact⟩ | ⟨hnone, -⟩
  · refine ⟨u, hexact, ?_⟩
    rw [hexact] at hrun
    obtain ⟨m, hm, hrun⟩ := bind_eq_ok.mp hrun
    cases hm
    obtain ⟨b, hb, hrun⟩ := bind_eq_ok.mp hrun
    rw [strcmpEqual_eq hv (hblocks u hu)] at hb
    cases hb
    split_ifs at hrun with hsame
    · exact of_decide_eq_true hsame
    · obtain ⟨copied, hcopied, hrun⟩ := bind_eq_ok.mp hrun
      cases hrun
      exact (strcpy_eq_ok (hblocks u hu) hcopied).1
  · exact absurd rfl (hnone s hs)

/-- `sanei_constrain_value` does not record anything about strings. -/
theorem constrainString_info (htype : opt.constraintType = SANE_CONSTRAINT_STRING_LIST)
    (hss : opt.constraint = .stringList (stringBlocks blocks)) {value value' : List SaneByte}
    (hv : 0 ∈ value) {info info' : Option SaneWord} {st : SaneStatus}
    (hrun : saneiConstrainValue opt value info = .ok (st, value', info'))
    (info₁ : Option SaneWord) : saneiConstrainValue opt value info₁ = .ok (st, value', info₁) := by
  rw [constrainString_eq htype hss hv] at hrun ⊢
  obtain ⟨m, hm, hrun⟩ := bind_eq_ok.mp hrun
  rw [hm]
  refine bind_eq_ok.mpr ⟨m, rfl, ?_⟩
  cases m with
  | exact s =>
    obtain ⟨b, hb, hrun⟩ := bind_eq_ok.mp hrun
    refine bind_eq_ok.mpr ⟨b, hb, ?_⟩
    cases b with
    | true =>
      cases hrun
      rfl
    | false =>
      obtain ⟨copied, hcopied, hrun⟩ := bind_eq_ok.mp hrun
      cases hrun
      exact bind_eq_ok.mpr ⟨_, hcopied, rfl⟩
  | counted num last =>
    dsimp only at hrun ⊢
    split_ifs at hrun ⊢ with hmany hone
    · cases hrun
      rfl
    · cases last with
      | none => cases hrun
      | some s =>
        obtain ⟨copied, hcopied, hrun⟩ := bind_eq_ok.mp hrun
        cases hrun
        exact bind_eq_ok.mpr ⟨_, hcopied, rfl⟩
    · cases hrun
      rfl

/-- A string that is refused stays as it is. -/
theorem constrainString_unchanged (htype : opt.constraintType = SANE_CONSTRAINT_STRING_LIST)
    (hss : opt.constraint = .stringList (stringBlocks blocks)) {value value' : List SaneByte}
    (hv : 0 ∈ value) {info info' : Option SaneWord} {st : SaneStatus}
    (hrun : saneiConstrainValue opt value info = .ok (st, value', info')) (hst : st ≠ .good) :
    value' = value := by
  rw [constrainString_eq htype hss hv] at hrun
  obtain ⟨m, -, hrun⟩ := bind_eq_ok.mp hrun
  cases m with
  | exact s =>
    obtain ⟨b, -, hrun⟩ := bind_eq_ok.mp hrun
    split_ifs at hrun
    · cases hrun
      rfl
    · obtain ⟨copied, -, hrun⟩ := bind_eq_ok.mp hrun
      cases hrun
      exact absurd rfl hst
  | counted num last =>
    dsimp only at hrun
    split_ifs at hrun with hmany hone
    · cases hrun
      rfl
    · cases last with
      | none => cases hrun
      | some s =>
        obtain ⟨copied, -, hrun⟩ := bind_eq_ok.mp hrun
        cases hrun
        exact absurd rfl hst
    · cases hrun
      rfl

theorem stringList_keeps_and_once (htype : opt.constraintType = SANE_CONSTRAINT_STRING_LIST)
    (hss : opt.constraint = .stringList (stringBlocks blocks)) (hblocks : ∀ s ∈ blocks, 0 ∈ s) :
    (opt.KeepsAccepted ∧ opt.ConstrainsOnce) ↔
      ∀ s ∈ blocks, ∀ t ∈ blocks, EqualNoCase s t → cString s = cString t := by
  constructor
  · rintro ⟨hkeeps, -⟩ s hs t ht hst
    obtain ⟨u, hu, hsu⟩ := cString_eq_of_keepsAccepted htype hss hblocks hkeeps hs
    obtain ⟨u', hu', htu⟩ := cString_eq_of_keepsAccepted htype hss hblocks hkeeps ht
    rw [matchStrings_congr (hblocks s hs) (hblocks t ht) hst hblocks, hu'] at hu
    cases hu
    rw [hsu, htu]
  · intro hcase
    constructor
    · intro value info hcheck
      obtain ⟨hv, s, hs, hval⟩ := (checkString_iff htype hss hblocks).mp hcheck
      exact constrainString_fixed htype hss hblocks hcase hv hs hval info
    · intro value info st value' info' hrun info₁
      by_cases hgood : st = .good
      · subst hgood
        obtain ⟨s, hs, hval, hv⟩ := constrainString_good htype hss hblocks hrun
        exact ⟨_, _, constrainString_fixed htype hss hblocks hcase hv hs hval info₁⟩
      · have hv : 0 ∈ value := by
          have h₁ : opt.constraintType ≠ SANE_CONSTRAINT_RANGE := by rw [htype]; decide
          have h₂ : opt.constraintType ≠ SANE_CONSTRAINT_WORD_LIST := by rw [htype]; decide
          rw [saneiConstrainValue, if_neg h₁, if_neg h₂, if_pos htype] at hrun
          obtain ⟨len, hlen, -⟩ := bind_eq_ok.mp hrun
          exact (strlen_eq_ok.mp hlen).1
        have hsame := constrainString_unchanged htype hss hv hrun hgood
        subst hsame
        exact ⟨_, _, constrainString_info htype hss hv hrun info₁⟩

/-! ### All constraints -/

/-- A range whose points fit, a word list without opposite words, a string list without strings
    that differ in case only. -/
def SaneOptionDescriptor.Coherent (opt : SaneOptionDescriptor) : Prop :=
  if opt.constraintType = SANE_CONSTRAINT_RANGE then
    ∀ r, opt.constraint = .range r → RangeCoherent r
  else if opt.constraintType = SANE_CONSTRAINT_WORD_LIST then
    ∀ n ws, opt.constraint = .wordList (n :: ws) → ∀ w ∈ ws, ∀ z ∈ ws, gap w z ≠ 2 ^ 31
  else if opt.constraintType = SANE_CONSTRAINT_STRING_LIST then
    ∀ blocks, opt.constraint = .stringList (stringBlocks blocks) →
      ∀ s ∈ blocks, ∀ t ∈ blocks, EqualNoCase s t → cString s = cString t
  else True

theorem stringBlocks_injective : Function.Injective stringBlocks := by
  intro as bs h
  have hmap := List.append_cancel_right h
  exact (List.map_inj_right fun _ _ hab => by cases hab; rfl).mp hmap

/-- Booleans, and values that are not checked at all. -/
theorem plain_keeps_and_once (hproper : opt.ConstraintProper)
    (h₁ : opt.constraintType ≠ SANE_CONSTRAINT_RANGE)
    (h₂ : opt.constraintType ≠ SANE_CONSTRAINT_WORD_LIST)
    (h₃ : opt.constraintType ≠ SANE_CONSTRAINT_STRING_LIST) :
    opt.KeepsAccepted ∧ opt.ConstrainsOnce := by
  constructor
  · intro value info hcheck
    rw [saneiCheckValue, if_neg h₁, if_neg h₂, if_neg h₃] at hcheck
    rw [saneiConstrainValue, if_neg h₁, if_neg h₂, if_neg h₃]
    by_cases hbool : opt.constraintType = SANE_CONSTRAINT_NONE ∧ opt.type = SANE_TYPE_BOOL
    · rw [if_pos hbool, checkElements_eq_good] at hcheck
      have hpos := hproper.elementCount_pos (.inr hbool)
      obtain ⟨b, hb, hallowed⟩ := hcheck 0 (Nat.le_refl 0) (by omega)
      have hgood := boolAllows_eq_true.mp hallowed
      rw [if_pos hbool, hb]
      refine bind_eq_ok.mpr ⟨b, rfl, ?_⟩
      rw [if_neg (by tauto)]
      rfl
    · rw [if_neg hbool]
  · intro value info st value' info' hrun info₁
    rw [saneiConstrainValue, if_neg h₁, if_neg h₂, if_neg h₃] at hrun ⊢
    split_ifs at hrun ⊢ with hbool
    · obtain ⟨b, hb, hrun⟩ := bind_eq_ok.mp hrun
      split_ifs at hrun with hbad
      · cases hrun
        exact ⟨.inval, info₁, bind_eq_ok.mpr ⟨b, hb, by rw [if_pos hbad]; rfl⟩⟩
      · cases hrun
        exact ⟨.good, info₁, bind_eq_ok.mpr ⟨b, hb, by rw [if_neg hbad]; rfl⟩⟩
    · cases hrun
      exact ⟨.good, info₁, rfl⟩

/-- Accepted values and constrained values are left alone exactly by these constraints. -/
theorem keeps_and_once_iff (hproper : opt.ConstraintProper) :
    (opt.KeepsAccepted ∧ opt.ConstrainsOnce) ↔ opt.Coherent := by
  rw [SaneOptionDescriptor.Coherent]
  rcases constraintType_cases opt.constraintType with htype | htype | htype | ⟨h₁, h₂, h₃⟩
  · obtain ⟨r, hr, -⟩ := hproper.range htype
    rw [if_pos htype, and_iff_right (range_keepsAccepted htype hr),
      range_constrainsOnce hproper htype hr, hr]
    refine ⟨fun h r' hr' => ?_, fun h => h r rfl⟩
    cases hr'
    exact h
  · have h₁ : opt.constraintType ≠ SANE_CONSTRAINT_RANGE := by rw [htype]; decide
    obtain ⟨n, ws, hws, hn, hne⟩ := hproper.wordList htype
    rw [if_neg h₁, if_pos htype, wordList_keeps_and_once htype hws hn hne, hws]
    refine ⟨fun h n' ws' hws' => ?_, fun h => h n ws rfl⟩
    cases hws'
    exact h
  · have h₁ : opt.constraintType ≠ SANE_CONSTRAINT_RANGE := by rw [htype]; decide
    have h₂ : opt.constraintType ≠ SANE_CONSTRAINT_WORD_LIST := by rw [htype]; decide
    obtain ⟨blocks, hss, -, hblocks⟩ := hproper.stringList htype
    rw [if_neg h₁, if_neg h₂, if_pos htype, stringList_keeps_and_once htype hss hblocks, hss]
    refine ⟨fun h blocks' hblocks' => ?_, fun h => h blocks rfl⟩
    obtain rfl := stringBlocks_injective (SaneConstraint.stringList.inj hblocks')
    exact h
  · rw [if_neg h₁, if_neg h₂, if_neg h₃]
    exact ⟨fun _ => trivial, fun _ => plain_keeps_and_once hproper h₁ h₂ h₃⟩

theorem keeps_and_once_stepped :
    steppedOption.KeepsAccepted ∧ steppedOption.ConstrainsOnce := by
  refine (keeps_and_once_iff steppedOption_proper).mpr ?_
  have htype : steppedOption.constraintType = SANE_CONSTRAINT_RANGE := rfl
  rw [SaneOptionDescriptor.Coherent, if_pos htype]
  intro r hr
  cases hr
  exact .inr ⟨by decide, by decide⟩

/-- The strings "Gray" and "gray". -/
def grayOption : SaneOptionDescriptor :=
  ⟨.null, .null, .null, SANE_TYPE_STRING, 0, 5, 0, SANE_CONSTRAINT_STRING_LIST,
    .stringList (stringBlocks [[71, 114, 97, 121, 0], [103, 114, 97, 121, 0]])⟩

/-- The least word and zero, which are opposite. -/
def oppositeOption : SaneOptionDescriptor :=
  ⟨.null, .null, .null, SANE_TYPE_INT, 0, 4, 0, SANE_CONSTRAINT_WORD_LIST,
    .wordList [2, 0x80000000, 0]⟩

/-- From zero to the greatest word in steps of `2 ^ 30`. -/
def wideOption : SaneOptionDescriptor :=
  ⟨.null, .null, .null, SANE_TYPE_INT, 0, 4, 0, SANE_CONSTRAINT_RANGE,
    .range ⟨0, 0x7FFFFFFF, 0x40000000⟩⟩

/-- Accepted values that are changed, and one that changes a second time. -/
theorem keeps_and_once_fails :
    ¬ grayOption.KeepsAccepted ∧ ¬ oppositeOption.KeepsAccepted ∧
      ¬ wideOption.ConstrainsOnce := by
  refine ⟨fun h => ?_, fun h => ?_, fun h => ?_⟩
  · have hsame := h [103, 114, 97, 121, 0] none (by decide)
    have hrun : saneiConstrainValue grayOption [103, 114, 97, 121, 0] none =
      .ok (.good, [71, 114, 97, 121, 0], none) := by decide
    rw [hrun] at hsame
    exact absurd hsame (by decide)
  · have hsame := h (hostBytes 0) none (by decide)
    have hrun : saneiConstrainValue oppositeOption (hostBytes 0) none =
      .ok (.good, hostBytes 0x80000000, none) := by decide
    rw [hrun] at hsame
    exact absurd hsame (by decide)
  · have hfirst : saneiConstrainValue wideOption (hostBytes 0x7FFFFFFF) none =
      .ok (.good, hostBytes 0x80000000, none) := by decide
    have hsecond : saneiConstrainValue wideOption (hostBytes 0x80000000) none =
      .ok (.good, hostBytes 0, none) := by decide
    obtain ⟨st', info₂, hagain⟩ := h _ _ _ _ _ hfirst none
    rw [hsecond] at hagain
    have hbytes : hostBytes 0 = hostBytes 0x80000000 := by
      injection hagain with hpair
      injection hpair with _ hpair
      injection hpair
    exact absurd hbytes (by decide)

end SaneBackends
