import SaneBackends.ConstrainValue
import SaneBackends.DescriptorShape

/-!
# Constrained values and the check

`sanei_constrain_value` and `sanei_check_value` are two case analyses of their own.
A constrained value passes the check unless an element of a range was rounded past
the end of the range, or a boolean array holds something else behind its first
element.  The first happens exactly to elements more than half a step behind the
last point of the grid.
-/

namespace SaneBackends

open FaultState GridRounding SignedWords

/-! ### Well-formed constraints -/

/-- A range that is not empty, with sums that fit in a `SANE_Word`. -/
structure RangeOk (r : SaneRange) : Prop where
  min_le : r.min.toInt ≤ r.max.toInt
  quant : 0 ≤ r.quant.toInt
  width : r.max.toInt - r.min.toInt + r.quant.toInt / 2 < 2 ^ 31
  top : r.max.toInt + r.quant.toInt / 2 < 2 ^ 31

/-- The constraint can be met. -/
structure SaneOptionDescriptor.ConstraintOk (d : SaneOptionDescriptor) : Prop where
  range : d.constraintType = SANE_CONSTRAINT_RANGE → ∃ r, d.constraint = .range r ∧ RangeOk r
  wordList : d.constraintType = SANE_CONSTRAINT_WORD_LIST →
    ∃ n ws, d.constraint = .wordList (n :: ws) ∧ n.toInt = ws.length ∧ ws ≠ []
  stringList : d.constraintType = SANE_CONSTRAINT_STRING_LIST →
    ∃ blocks, d.constraint = .stringList (stringBlocks blocks) ∧ blocks ≠ [] ∧
      ∀ s ∈ blocks, 0 ∈ s

/-! ### One element of a range -/

/-- The element is not rounded past the end of the range. -/
def RoundsInside (r : SaneRange) (a : SaneWord) : Prop :=
  r.quant = 0 ∨ min a.toInt r.max.toInt <
    lastGrid r.min.toInt r.max.toInt r.quant.toInt + (r.quant.toInt - r.quant.toInt / 2)

instance (r : SaneRange) (a : SaneWord) : Decidable (RoundsInside r a) :=
  inferInstanceAs (Decidable (_ ∨ _))

/-- The arithmetic of `sanei_constrain_value` rounds to the grid. -/
theorem quantize_toInt {r : SaneRange} (hr : RangeOk r) (hq : 0 < r.quant.toInt) {b : SaneWord}
    (h₁ : r.min.toInt ≤ b.toInt) (h₂ : b.toInt ≤ r.max.toInt) :
    (quantize r b).toInt = roundGrid r.min.toInt r.quant.toInt b.toInt := by
  have hwidth := hr.width
  have htop := hr.top
  have hmin := toInt_bounds r.min
  have htwo : (2 : SaneWord).toInt = 2 := by decide
  have hhalf := toInt_sdiv_of_pos (v := 2) hr.quant (by omega)
  rw [htwo] at hhalf
  have hsub := toInt_sub_of_fits (u := b) (v := r.min) (by omega) (by omega)
  have hsum := toInt_add_of_fits (u := b - r.min) (v := r.quant.sdiv 2) (by omega) (by omega)
  have hquot := toInt_div (u := b - r.min + r.quant.sdiv 2) (v := r.quant) (by omega) (by omega)
  have hle : (b - r.min + r.quant.sdiv 2).toInt / r.quant.toInt * r.quant.toInt ≤
      (b - r.min + r.quant.sdiv 2).toInt := Int.ediv_mul_le _ (by omega)
  have hnonneg : 0 ≤ (b - r.min + r.quant.sdiv 2).toInt / r.quant.toInt * r.quant.toInt :=
    Int.mul_nonneg (Int.ediv_nonneg (by omega) (by omega)) (by omega)
  rw [← hquot] at hle hnonneg
  have hprod := toInt_mul_of_fits (u := (b - r.min + r.quant.sdiv 2) / r.quant) (v := r.quant)
    (by omega) (by omega)
  have hres := toInt_add_of_fits
    (u := (b - r.min + r.quant.sdiv 2) / r.quant * r.quant) (v := r.min) (by omega) (by omega)
  rw [quantize, hres, hprod, hquot, hsum, hsub, hhalf, roundGrid]
  omega

/-- The element between the ends of the range. -/
def clamped (r : SaneRange) (a : SaneWord) : SaneWord :=
  let b := if a.slt r.min then r.min else a
  if r.max.slt b then r.max else b

theorem constrained_eq (r : SaneRange) (a : SaneWord) :
    constrained r a = if r.quant = 0 then clamped r a else quantize r (clamped r a) := by
  simp only [constrained, constrainElement, replaceIf_fst, clamped, Bool.and_eq_true, bne_iff_ne]
  by_cases hq : r.quant = 0
  · simp [hq]
  · simp only [hq, not_false_eq_true, ne_eq, true_and, if_false]
    split_ifs with h <;> simp_all

theorem clamped_toInt {r : SaneRange} (hr : r.min.toInt ≤ r.max.toInt) (a : SaneWord) :
    (clamped r a).toInt = min (max a.toInt r.min.toInt) r.max.toInt := by
  simp only [clamped, BitVec.slt_iff_toInt_lt]
  split_ifs <;> omega

theorem quant_eq_zero {r : SaneRange} : r.quant = 0 ↔ r.quant.toInt = 0 :=
  ⟨fun h => by rw [h]; rfl, fun h => BitVec.eq_of_toInt_eq h⟩

/-- A constrained element lies in the range exactly when it is not rounded past its end. -/
theorem constrained_mem {r : SaneRange} (hr : RangeOk r) (a : SaneWord) :
    r.min.toInt ≤ (constrained r a).toInt ∧
      ((constrained r a).toInt ≤ r.max.toInt ↔ RoundsInside r a) := by
  have hle := hr.min_le
  have hclamp := clamped_toInt hle a
  have hlo : r.min.toInt ≤ (clamped r a).toInt := by omega
  have hhi : (clamped r a).toInt ≤ r.max.toInt := by omega
  rw [constrained_eq]
  split_ifs with hq
  · exact ⟨hlo, fun _ => .inl hq, fun _ => hhi⟩
  · have hpos : 0 < r.quant.toInt := by
      have := mt (quant_eq_zero).mpr hq
      have := hr.quant
      omega
    rw [quantize_toInt hr hpos hlo hhi]
    refine ⟨le_roundGrid hpos hlo, ?_⟩
    have hstart := lt_lastGrid_add hpos hle
    rw [roundGrid_le_iff hpos, hclamp, RoundsInside, or_iff_right hq]
    omega

/-- And then it passes the check. -/
theorem rangeAllows_constrained {r : SaneRange} (hr : RangeOk r) (a : SaneWord) :
    rangeAllows (.block r) (constrained r a) = .ok true ↔ RoundsInside r a := by
  obtain ⟨hlo, hiff⟩ := constrained_mem hr a
  have hmin : (constrained r a).slt r.min = false := by
    rw [Bool.eq_false_iff, ne_eq, BitVec.slt_iff_toInt_lt]
    omega
  rw [← hiff]
  by_cases hhi : (constrained r a).toInt ≤ r.max.toInt
  · have hmax : r.max.slt (constrained r a) = false := by
      rw [Bool.eq_false_iff, ne_eq, BitVec.slt_iff_toInt_lt]
      omega
    have hgrid : r.quant ≠ 0 → quantize r (constrained r a) = constrained r a := by
      intro hq
      have hpos : 0 < r.quant.toInt := by
        have := mt (quant_eq_zero).mpr hq
        have := hr.quant
        omega
      have hclamp := clamped_toInt hr.min_le a
      have heq : constrained r a = quantize r (clamped r a) := by rw [constrained_eq, if_neg hq]
      have hround : (constrained r a).toInt =
          roundGrid r.min.toInt r.quant.toInt (clamped r a).toInt := by
        rw [heq]
        exact quantize_toInt hr hpos (by omega) (by omega)
      apply BitVec.eq_of_toInt_eq
      rw [quantize_toInt hr hpos hlo hhi, hround, roundGrid_roundGrid hpos]
    refine ⟨fun _ => hhi, fun _ => ?_⟩
    simp only [rangeAllows, followPtr, bind, Except.bind, hmin, hmax, Bool.or_self,
      Bool.false_eq_true, ↓reduceIte]
    by_cases hq : r.quant = 0
    · simp [hq, pure, Except.pure]
    · simp [hgrid hq, pure, Except.pure]
  · have hmax : r.max.slt (constrained r a) = true := by
      rw [BitVec.slt_iff_toInt_lt]
      omega
    refine ⟨fun h => ?_, fun h => absurd h hhi⟩
    simp [rangeAllows, followPtr, bind, Except.bind, pure, Except.pure, hmax] at h

/-! ### Whole values -/

/-- No element of a range is rounded past the end of it, and the elements of a boolean
    array behind the first are booleans. -/
def SaneOptionDescriptor.StaysAllowed (opt : SaneOptionDescriptor) (value : List SaneByte) : Prop :=
  if opt.constraintType = SANE_CONSTRAINT_RANGE then
    ∀ r, opt.constraint = .range r →
      ∀ i < elementCount opt.size, ∀ a, loadWord value i = .ok a → RoundsInside r a
  else if opt.constraintType = SANE_CONSTRAINT_NONE ∧ opt.type = SANE_TYPE_BOOL then
    ∀ i < elementCount opt.size, i ≠ 0 →
      ∀ b, loadWord value i = .ok b → b = SANE_TRUE ∨ b = SANE_FALSE
  else True

theorem forall_mem_index {P : Nat → Prop} {n : Nat} :
    (∀ j, 0 ≤ j → j < 0 + n → P j) ↔ ∀ j < n, P j := by
  simp

/-- The values of a range. -/
theorem range_then_check {range : Ptr SaneRange} {r : SaneRange} {n : Nat}
    {value value' : List SaneByte} {info info' : Option SaneWord} (hrange : range = .block r)
    (hr : RangeOk r) (hrun : constrainElements range n 0 value info = .ok (value', info')) :
    (checkElements (rangeAllows range) value' n 0 = .ok .good ↔
      ∀ i < n, ∀ a, loadWord value i = .ok a → RoundsInside r a) ∧
    ((∀ i < n, ∃ a, loadWord value' i = .ok a ∧ r.min.toInt ≤ a.toInt ∧ a.toInt ≤ r.max.toInt) ↔
      ∀ i < n, ∀ a, loadWord value i = .ok a → RoundsInside r a) := by
  subst hrange
  obtain ⟨-, hin, -⟩ := constrainElements_spec hrun
  have helem : ∀ i < n, ∃ a, loadWord value i = .ok a ∧
      loadWord value' i = .ok (constrained r a) := by
    intro i hi
    obtain ⟨a, r', ha, hr', ha'⟩ := hin i (Nat.zero_le _) (by omega)
    cases hr'
    exact ⟨a, ha, ha'⟩
  constructor
  · rw [checkElements_eq_good, forall_mem_index]
    constructor
    · intro h i hi a ha
      obtain ⟨b, hb, hb'⟩ := helem i hi
      obtain ⟨c, hc, hallowed⟩ := h i hi
      rw [ha] at hb
      rw [hb'] at hc
      cases hb
      cases hc
      exact (rangeAllows_constrained hr a).mp hallowed
    · intro h i hi
      obtain ⟨a, ha, ha'⟩ := helem i hi
      exact ⟨_, ha', (rangeAllows_constrained hr a).mpr (h i hi a ha)⟩
  · constructor
    · intro h i hi a ha
      obtain ⟨b, hb, hb'⟩ := helem i hi
      obtain ⟨c, hc, -, hmax⟩ := h i hi
      rw [ha] at hb
      rw [hb'] at hc
      cases hb
      cases hc
      exact (constrained_mem hr a).2.mp hmax
    · intro h i hi
      obtain ⟨a, ha, ha'⟩ := helem i hi
      obtain ⟨hmin, hmax⟩ := constrained_mem hr a
      exact ⟨_, ha', hmin, hmax.mpr (h i hi a ha)⟩

theorem boolAllows_eq_true {b : SaneWord} :
    boolAllows b = .ok true ↔ b = SANE_TRUE ∨ b = SANE_FALSE := by
  simp [boolAllows]

/-- The values of a boolean option, of which only the first has been looked at. -/
theorem bool_then_check {size b : SaneWord} {value : List SaneByte}
    (hlen : size.toInt ≤ value.length) (hb : loadWord value 0 = .ok b)
    (hbool : b = SANE_TRUE ∨ b = SANE_FALSE) :
    checkElements boolAllows value (elementCount size) 0 = .ok .good ↔
      ∀ i < elementCount size, i ≠ 0 →
        ∀ b, loadWord value i = .ok b → b = SANE_TRUE ∨ b = SANE_FALSE := by
  rw [checkElements_eq_good, forall_mem_index]
  constructor
  · intro h i hi _ c hc
    obtain ⟨d, hd, hallowed⟩ := h i hi
    rw [hc] at hd
    cases hd
    exact (boolAllows_eq_true).mp hallowed
  · intro h i hi
    by_cases h0 : i = 0
    · subst h0
      exact ⟨b, hb, (boolAllows_eq_true).mpr hbool⟩
    · have hfit : 4 * i + 4 ≤ value.length := by
        unfold elementCount at hi
        split_ifs at hi with hpos
        · have := toNat_of_nonneg (k := size) (by omega)
          omega
        · omega
      obtain ⟨c, hc⟩ := loadWord_ok hfit
      exact ⟨c, hc, (boolAllows_eq_true).mpr (h i hi h0 c hc)⟩

/-- The value of a word list option is one of the words. -/
theorem wordList_then_check {n w : SaneWord} {ws : List SaneWord} {k : Nat}
    (hlen : n.toInt = ws.length) (hws : ws ≠ [])
    (hk : wordIn (n :: ws) k = .ok w) (hone : 1 ≤ k) :
    wordListHas (n :: ws) w (n.toInt - 1).toNat 1 = .ok .good := by
  have hpos : 1 ≤ ws.length := List.length_pos_iff.mpr hws
  have hklt : k < (n :: ws).length := by
    by_contra hge
    rw [wordIn_eq_ok, List.getElem?_eq_none (by omega)] at hk
    cases hk
  rw [List.length_cons] at hklt
  exact wordListHas_eq_good (by rw [List.length_cons]; omega) hone (by omega) hk

/-- A string that was matched is the value afterwards, and the check finds it. -/
theorem stringList_then_check {blocks : List (List SaneByte)} {value' s : List SaneByte}
    (hblocks : ∀ s ∈ blocks, 0 ∈ s) (hs : s ∈ blocks) (hval : cString value' = cString s)
    (hv : 0 ∈ value') :
    (do let len ← strlen value'
        let ss ← followPtr (.block (stringBlocks blocks))
        stringListHas value' len ss : Except Fault SaneStatus) = .ok .good := by
  rw [strlen_of_mem hv]
  exact stringListHas_eq_good hv hblocks ⟨s, hs, hval⟩

theorem strcpy_eq_ok {dest src dest' : List SaneByte} (h : 0 ∈ src)
    (hrun : strcpy dest src = .ok dest') : cString dest' = cString src ∧ 0 ∈ dest' := by
  rw [strcpy_eq h] at hrun
  split_ifs at hrun
  cases hrun
  exact cString_overwrite fun b hb => ne_zero_of_mem_cString hb

/-- What the string list case leaves as the value when it returns `SANE_STATUS_GOOD`. -/
theorem constrainString_good {opt : SaneOptionDescriptor} {blocks : List (List SaneByte)}
    {value value' : List SaneByte} {info info' : Option SaneWord}
    (htype : opt.constraintType = SANE_CONSTRAINT_STRING_LIST)
    (hss : opt.constraint = .stringList (stringBlocks blocks)) (hblocks : ∀ s ∈ blocks, 0 ∈ s)
    (hrun : saneiConstrainValue opt value info = .ok (.good, value', info')) :
    ∃ s ∈ blocks, cString value' = cString s ∧ 0 ∈ value' := by
  have h₁ : opt.constraintType ≠ SANE_CONSTRAINT_RANGE := by rw [htype]; decide
  have h₂ : opt.constraintType ≠ SANE_CONSTRAINT_WORD_LIST := by rw [htype]; decide
  rw [saneiConstrainValue, if_neg h₁, if_neg h₂, if_pos htype] at hrun
  obtain ⟨len, hstrlen, hrun⟩ := bind_eq_ok.mp hrun
  obtain ⟨hv, rfl⟩ := strlen_eq_ok.mp hstrlen
  rw [hss] at hrun
  obtain ⟨ss, hfollow, hrun⟩ := bind_eq_ok.mp hrun
  cases hfollow
  obtain ⟨m, hm, hrun⟩ := bind_eq_ok.mp hrun
  rcases matchStrings_spec hv hblocks 0 none with
    ⟨s, hs, -, hexact⟩ | ⟨-, last', hcounted, hlast⟩
  · rw [hexact] at hm
    cases hm
    obtain ⟨b, hb, hrun⟩ := bind_eq_ok.mp hrun
    rw [strcmpEqual_eq hv (hblocks s hs)] at hb
    cases hb
    split_ifs at hrun with heq
    · cases hrun
      exact ⟨s, hs, of_decide_eq_true heq, hv⟩
    · obtain ⟨copied, hcopied, hrun⟩ := bind_eq_ok.mp hrun
      cases hrun
      exact ⟨s, hs, strcpy_eq_ok (hblocks s hs) hcopied⟩
  · rw [hcounted] at hm
    cases hm
    simp only at hrun
    split_ifs at hrun with hmany hone
    · cases hrun
    · rcases hlast with ⟨hzero, -⟩ | ⟨s, hs, -, rfl⟩
      · omega
      · obtain ⟨copied, hcopied, hrun⟩ := bind_eq_ok.mp hrun
        cases hrun
        exact ⟨s, hs, strcpy_eq_ok (hblocks s hs) hcopied⟩
    · cases hrun

/-- What the word list case leaves as the value: one of the words. -/
theorem constrainWord_good {opt : SaneOptionDescriptor} {ws : List SaneWord}
    {value value' : List SaneByte} {info info' : Option SaneWord}
    (htype : opt.constraintType = SANE_CONSTRAINT_WORD_LIST)
    (hws : opt.constraint = .wordList ws)
    (hrun : saneiConstrainValue opt value info = .ok (.good, value', info')) :
    ∃ k x, 1 ≤ k ∧ wordIn ws k = .ok x ∧ loadWord value' 0 = .ok x := by
  have h₁ : opt.constraintType ≠ SANE_CONSTRAINT_RANGE := by rw [htype]; decide
  rw [saneiConstrainValue, if_neg h₁, if_pos htype, hws] at hrun
  obtain ⟨w, hw, hrun⟩ := bind_eq_ok.mp hrun
  obtain ⟨list, hlist, hrun⟩ := bind_eq_ok.mp hrun
  cases hlist
  obtain ⟨first, -, hrun⟩ := bind_eq_ok.mp hrun
  obtain ⟨count, -, hrun⟩ := bind_eq_ok.mp hrun
  obtain ⟨k, hk, hrun⟩ := bind_eq_ok.mp hrun
  obtain ⟨x, hx, hrun⟩ := bind_eq_ok.mp hrun
  have hone : 1 ≤ k := by rcases nearestWord_spec hk with rfl | ⟨h, -⟩ <;> omega
  refine ⟨k, x, hone, hx, ?_⟩
  split_ifs at hrun with hwx
  · obtain ⟨stored, hstored, hrun⟩ := bind_eq_ok.mp hrun
    cases hrun
    rw [loadWord_storeWord hstored, if_pos rfl]
  · cases hrun
    rw [hw, not_not.mp hwx]

theorem staysAllowed_range {opt : SaneOptionDescriptor} {r : SaneRange} {value : List SaneByte}
    (htype : opt.constraintType = SANE_CONSTRAINT_RANGE) (hr : opt.constraint = .range r) :
    opt.StaysAllowed value ↔
      ∀ i < elementCount opt.size, ∀ a, loadWord value i = .ok a → RoundsInside r a := by
  rw [SaneOptionDescriptor.StaysAllowed, if_pos htype, hr]
  refine ⟨fun h => h r rfl, fun h r' hr' => ?_⟩
  cases hr'
  exact h

theorem staysAllowed_list {opt : SaneOptionDescriptor} {value : List SaneByte}
    (hrange : opt.constraintType ≠ SANE_CONSTRAINT_RANGE)
    (hnone : opt.constraintType ≠ SANE_CONSTRAINT_NONE) : opt.StaysAllowed value := by
  rw [SaneOptionDescriptor.StaysAllowed, if_neg hrange, if_neg fun h => hnone h.1]
  trivial

/-- A value that was constrained passes the check exactly when it stays allowed; for a
    range this is also when its elements lie in the range. -/
theorem constrain_then_check {opt : SaneOptionDescriptor} {value value' : List SaneByte}
    {info info' : Option SaneWord} (hopt : opt.ConstraintOk)
    (hlen : opt.size.toInt ≤ value.length)
    (hrun : saneiConstrainValue opt value info = .ok (.good, value', info')) :
    (saneiCheckValue opt value' = .ok .good ↔ opt.StaysAllowed value) ∧
      ∀ r, opt.constraintType = SANE_CONSTRAINT_RANGE → opt.constraint = .range r →
        ((∀ i < elementCount opt.size, ∃ a, loadWord value' i = .ok a ∧
          r.min.toInt ≤ a.toInt ∧ a.toInt ≤ r.max.toInt) ↔ opt.StaysAllowed value) := by
  rcases constraintType_cases opt.constraintType with htype | htype | htype | ⟨h₁, h₂, h₃⟩
  · obtain ⟨r, hr, hok⟩ := hopt.range htype
    rw [saneiConstrainValue, if_pos htype] at hrun
    obtain ⟨⟨stored, info''⟩, hloop, hend⟩ := bind_eq_ok.mp hrun
    cases hend
    obtain ⟨hcheck, hmem⟩ := range_then_check (by rw [hr]; rfl) hok hloop
    rw [saneiCheckValue, if_pos htype, staysAllowed_range htype hr]
    refine ⟨hcheck, fun r' _ hr' => ?_⟩
    rw [hr] at hr'
    cases hr'
    exact hmem
  · have h₁ : opt.constraintType ≠ SANE_CONSTRAINT_RANGE := by rw [htype]; decide
    refine ⟨⟨fun _ => staysAllowed_list h₁ (by rw [htype]; decide), fun _ => ?_⟩,
      fun r h => absurd h h₁⟩
    obtain ⟨n, ws, hws, hcount, hne⟩ := hopt.wordList htype
    obtain ⟨k, x, hone, hx, hload⟩ := constrainWord_good htype hws hrun
    rw [saneiCheckValue, if_neg h₁, if_pos htype, hload, hws]
    exact wordList_then_check hcount hne hx hone
  · have h₁ : opt.constraintType ≠ SANE_CONSTRAINT_RANGE := by rw [htype]; decide
    have h₂ : opt.constraintType ≠ SANE_CONSTRAINT_WORD_LIST := by rw [htype]; decide
    refine ⟨⟨fun _ => staysAllowed_list h₁ (by rw [htype]; decide), fun _ => ?_⟩,
      fun r h => absurd h h₁⟩
    obtain ⟨blocks, hss, -, hblocks⟩ := hopt.stringList htype
    obtain ⟨s, hs, hval, hv⟩ := constrainString_good htype hss hblocks hrun
    rw [saneiCheckValue, if_neg h₁, if_neg h₂, if_pos htype, hss]
    exact stringList_then_check hblocks hs hval hv
  · refine ⟨?_, fun r h => absurd h h₁⟩
    rw [saneiConstrainValue, if_neg h₁, if_neg h₂, if_neg h₃] at hrun
    rw [saneiCheckValue, if_neg h₁, if_neg h₂, if_neg h₃, SaneOptionDescriptor.StaysAllowed,
      if_neg h₁]
    by_cases hbool : opt.constraintType = SANE_CONSTRAINT_NONE ∧ opt.type = SANE_TYPE_BOOL
    · rw [if_pos hbool] at hrun
      rw [if_pos hbool, if_pos hbool]
      obtain ⟨b, hb, hrun⟩ := bind_eq_ok.mp hrun
      split_ifs at hrun with hbad
      · cases hrun
      · cases hrun
        refine bool_then_check hlen hb ?_
        by_contra hnone
        exact hbad (not_or.mp hnone)
    · rw [if_neg hbool, if_neg hbool]
      exact ⟨fun _ => trivial, fun _ => rfl⟩

/-- An integer option from 0 to 10 in steps of four. -/
def steppedOption : SaneOptionDescriptor :=
  ⟨.null, .null, .null, SANE_TYPE_INT, 0, 4, 0, SANE_CONSTRAINT_RANGE, .range ⟨0, 10, 4⟩⟩

theorem steppedOption_ok : steppedOption.ConstraintOk where
  range _ := ⟨_, rfl, by decide, by decide, by decide, by decide⟩
  wordList h := absurd h (by decide)
  stringList h := absurd h (by decide)

/-- Nine is rounded to eight. -/
theorem constrain_then_check_nine :
    saneiConstrainValue steppedOption (hostBytes 9) none = .ok (.good, hostBytes 8, none) ∧
      saneiCheckValue steppedOption (hostBytes 8) = .ok .good := by
  have hrun : saneiConstrainValue steppedOption (hostBytes 9) none =
      .ok (.good, hostBytes 8, none) := by decide
  refine ⟨hrun, (constrain_then_check steppedOption_ok (by decide) hrun).1.mpr ?_⟩
  apply (staysAllowed_range rfl rfl).mpr
  intro i hi a ha
  obtain rfl : i = 0 := by
    have hcount : elementCount steppedOption.size = 1 := by decide
    omega
  have hnine : loadWord (hostBytes 9) 0 = .ok 9 := by decide
  rw [hnine] at ha
  cases ha
  decide

/-- Ten is rounded to twelve, which the check refuses, and so is a boolean array whose
    second element is two. -/
theorem constrain_then_check_ten :
    (saneiConstrainValue steppedOption (hostBytes 10) none = .ok (.good, hostBytes 12, none) ∧
      saneiCheckValue steppedOption (hostBytes 12) = .ok .inval) ∧
    let flags : SaneOptionDescriptor :=
      ⟨.null, .null, .null, SANE_TYPE_BOOL, 0, 8, 0, SANE_CONSTRAINT_NONE, .null⟩
    saneiConstrainValue flags (hostBytes 1 ++ hostBytes 2) none =
        .ok (.good, hostBytes 1 ++ hostBytes 2, none) ∧
      saneiCheckValue flags (hostBytes 1 ++ hostBytes 2) = .ok .inval := by
  decide

end SaneBackends
