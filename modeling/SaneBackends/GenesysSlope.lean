import SaneBackends.Cells
import SaneBackends.FaultState
import Mathlib.Algebra.BigOperators.Group.List.Basic
import Mathlib.Algebra.Order.BigOperators.Group.List
import Mathlib.Data.List.TakeWhile

/-!
# Motor slope tables of the Genesys scanners

A slope table holds the length of each step of a motor that speeds up.
`sanei_genesys_slope_table` copies a profile down to the target speed, fills the rest with
the target and lengthens the slope to a multiple of the shrink factor.
-/

namespace SaneBackends.Genesys

open Overwrite

def SLOPE_TABLE_SIZE : Nat := 1024

/-- `FULL_STEP`, `HALF_STEP`, `QUARTER_STEP` and `EIGHTH_STEP`. -/
abbrev StepType := Fin 4

/-- `Motor_Profile`; `table` are the cells from the pointer on, none for `NULL`. -/
structure MotorProfile where
  motorType : Int
  exposure : Nat
  table : List Nat
deriving DecidableEq, Repr

/-! ### The source -/

/-- The loop of `sanei_genesys_get_motor_profile`; `best` is `motors[idx]`. -/
def closestProfile (motorType : Int) (exposure : Nat) :
    List MotorProfile → Option MotorProfile → Except Fault (Option MotorProfile)
  | [], _ => .error .outOfBounds
  | m :: motors, best =>
    if m.exposure = 0 then .ok best
    else if m.motorType = motorType ∧ m.exposure = exposure then .ok (some m)
    else if m.motorType = motorType ∧ exposure ≤ m.exposure then
      match best with
      | none => closestProfile motorType exposure motors (some m)
      | some b =>
        closestProfile motorType exposure motors (some (if m.exposure < b.exposure then m else b))
    else closestProfile motorType exposure motors best

/-- `sanei_genesys_get_motor_profile` of an array that an entry without exposure ends. -/
def getMotorProfile (motors : List MotorProfile) (motorType : Int) (exposure : Nat) :
    Except Fault MotorProfile := do
  match ← closestProfile motorType exposure motors none with
  | some m => return m
  | none => cellAt motors 0

/-- The loop that copies the profile: `rest` are the cells from `table[i]` on.  Gives `i`, the
    sum and the table. -/
def copyProfile (stepType : StepType) (target : Nat) :
    (rest : List Nat) → (current i sum : Nat) → (slope : List Nat) →
      Except Fault (Nat × Nat × List Nat)
  | [], _, _, _, _ => .error .outOfBounds
  | x :: rest, current, i, sum, slope =>
    if x ≠ 0 ∧ target ≤ current then do
      let slope ← setCell slope i current
      let next ← cellAt rest 0
      copyProfile stepType target rest ((next >>> stepType.val) % 2 ^ 16) (i + 1) (sum + current)
        slope
    else return (i, sum, slope)

/-- `while (more (i)) { slope[i + 1] = slope[i]; sum += slope[i]; i++; }` with `room` cells
    behind cell `i`. -/
def padLoop (more : Nat → Bool) :
    (room i sum : Nat) → (slope : List Nat) → Except Fault (Nat × Nat × List Nat)
  | 0, i, sum, slope => if more i then .error .outOfBounds else return (i, sum, slope)
  | room + 1, i, sum, slope =>
    if more i then do
      let x ← cellAt slope i
      let slope ← setCell slope (i + 1) x
      padLoop more room (i + 1) (sum + x) slope
    else return (i, sum, slope)

/-- The end of `sanei_genesys_slope_table`: align on the factor, then ensure the minimal size. -/
def padSlope (factor i sum : Nat) (slope : List Nat) : Except Fault (Nat × Nat × List Nat) := do
  let (i, sum, slope) ← padLoop (fun i => i % factor != 0) (slope.length - (i + 1)) i sum slope
  padLoop (fun i => i < 2 * factor) (slope.length - (i + 1)) i sum slope

/-- `sanei_genesys_slope_table`: the returned sum, `*steps` and the table. -/
def slopeTable (slope : List Nat) (dpi exposure baseDpi : Nat) (stepType : StepType)
    (factor : Nat) (motorType : Int) (motors : List MotorProfile) :
    Except Fault (Nat × Nat × List Nat) := do
  let _ ← intValue (exposure * dpi : Nat)
  if baseDpi = 0 then throw .outOfBounds
  let target := ((exposure * dpi / baseDpi) >>> stepType.val) % 2 ^ 16
  let slope ← storeCells slope 0 (List.replicate SLOPE_TABLE_SIZE target)
  let profile ← getMotorProfile motors motorType exposure
  let first ← cellAt profile.table 0
  let (i, sum, slope) ← copyProfile stepType target profile.table (first % 2 ^ 16) 0 0 slope
  let (i, sum, slope) ← padSlope factor i sum slope
  return (sum, i / factor, slope)

/-! ### What a slope table is -/

/-- The steps of a profile: the first one as it is, the others divided by the step type. -/
def stepLengths (stepType : StepType) (first : Nat) : List Nat → List Nat
  | [] => []
  | _ :: rest => first :: rest.map (· >>> stepType.val)

/-- The steps that are not faster than the target. -/
def copiedFrom (stepType : StepType) (target first : Nat) (profile : List Nat) : List Nat :=
  (stepLengths stepType first profile).takeWhile (target ≤ ·)

/-- The part of the profile that a slope starts with. -/
def copiedPart (stepType : StepType) (target : Nat) (profile : List Nat) : List Nat :=
  copiedFrom stepType target (profile.headD 0) profile

/-- The length of a slope of `n` steps that is aligned on the factor. -/
def paddedLength (factor n : Nat) : Nat :=
  max (2 * factor) ((n + factor - 1) / factor * factor)

/-- A slope table for the target that starts with the copied steps. -/
structure Tabulated (target : Nat) (copied : List Nat) (factor sum steps : Nat)
    (slope : List Nat) : Prop where
  length : slope.length = SLOPE_TABLE_SIZE
  table : slope = copied ++ List.replicate (SLOPE_TABLE_SIZE - copied.length) target
  nonincreasing : slope.Pairwise (· ≥ ·)
  copied_le : copied.length ≤ steps * factor
  minimal : 2 * factor ≤ steps * factor
  inside : steps * factor ≤ SLOPE_TABLE_SIZE
  sum_eq : sum = (slope.take (steps * factor)).sum
  sum_lt : sum < 2 ^ 31

/-! ### Padding -/

section Padding

variable {more : Nat → Bool} {room i j sum target : Nat} {slope : List Nat}

theorem padLoop_stop (h : more i = false) :
    padLoop more room i sum slope = .ok (i, sum, slope) := by
  cases room with
  | zero => rw [padLoop, h]; rfl
  | succ room => rw [padLoop, h]; rfl

theorem padLoop_step (h : more i = true) :
    padLoop more (room + 1) i sum slope = (do
      let x ← cellAt slope i
      let slope ← setCell slope (i + 1) x
      padLoop more room (i + 1) (sum + x) slope) := by
  rw [padLoop, h]
  rfl

/-- From an index on that the target fills, padding changes no cell. -/
theorem padLoop_ok (hij : i ≤ j) (hj : j = i ∨ j < slope.length)
    (hroom : room = slope.length - (i + 1))
    (hmore : ∀ k, i ≤ k → k < j → more k = true) (hstop : more j = false)
    (hfill : ∀ k, i ≤ k → k < slope.length → slope[k]? = some target) :
    padLoop more room i sum slope = .ok (j, sum + (j - i) * target, slope) := by
  induction room generalizing i sum with
  | zero =>
    have hi : i = j := by omega
    subst hi
    rw [padLoop_stop hstop, Nat.sub_self, Nat.zero_mul, Nat.add_zero]
  | succ room ih =>
    cases Nat.eq_or_lt_of_le hij with
    | inl hi =>
      subst hi
      rw [padLoop_stop hstop, Nat.sub_self, Nat.zero_mul, Nat.add_zero]
    | inr hlt =>
      have hsame : slope.set (i + 1) target = slope := by
        obtain ⟨_, hget⟩ := List.getElem?_eq_some_iff.mp (hfill (i + 1) (by omega) (by omega))
        rw [← hget, List.set_getElem_self]
      have hsum : sum + target + (j - (i + 1)) * target = sum + (j - i) * target := by
        have hsub : j - i = j - (i + 1) + 1 := by omega
        rw [hsub, Nat.succ_mul]
        omega
      rw [padLoop_step (hmore i (Nat.le_refl i) hlt),
        cellAt_eq_ok.mpr (hfill i (Nat.le_refl i) (by omega)), FaultState.ok_bind,
        setCell_of_lt (by omega), FaultState.ok_bind, hsame,
        ih (by omega) (by omega) (by omega) (fun k hk => hmore k (by omega))
          (fun k hk => hfill k (by omega)), hsum]

/-- Padding that does not end in front of the last cell writes behind it. -/
theorem padLoop_fault (hroom : room = slope.length - (i + 1)) (hi : more i = true)
    (hmore : ∀ k, i < k → k < slope.length → more k = true) :
    padLoop more room i sum slope = .error .outOfBounds := by
  induction room generalizing i sum slope with
  | zero => rw [padLoop, hi]; rfl
  | succ room ih =>
    have hset : setCell slope (i + 1) slope[i] = .ok (slope.set (i + 1) slope[i]) :=
      setCell_of_lt (by omega)
    rw [padLoop_step hi, cellAt_of_lt (by omega), FaultState.ok_bind, hset, FaultState.ok_bind]
    apply ih
    · rw [List.length_set]
      omega
    · exact hmore (i + 1) (by omega) (by omega)
    · intro k hk hlen
      rw [List.length_set] at hlen
      exact hmore k (by omega) hlen

/-- Padding copies cells. -/
theorem padLoop_forall {P : Nat → Prop} {out : Nat × Nat × List Nat}
    (h : padLoop more room i sum slope = .ok out) (hcells : ∀ x ∈ slope, P x) :
    out.2.2.length = slope.length ∧ ∀ x ∈ out.2.2, P x := by
  induction room generalizing i sum slope with
  | zero =>
    unfold padLoop at h
    split at h
    · cases h
    · cases h
      exact ⟨rfl, hcells⟩
  | succ room ih =>
    unfold padLoop at h
    split at h
    · obtain ⟨x, hx, h⟩ := FaultState.bind_eq_ok.mp h
      obtain ⟨slope', hset, h⟩ := FaultState.bind_eq_ok.mp h
      have hmem : x ∈ slope := List.mem_of_getElem? (cellAt_eq_ok.mp hx)
      have hslope : slope' = slope.set (i + 1) x := by
        unfold setCell at hset
        split_ifs at hset
        cases hset
        rfl
      have hcells' : ∀ y ∈ slope', P y := by
        intro y hy
        rw [hslope] at hy
        rcases List.mem_or_eq_of_mem_set hy with hy | rfl
        · exact hcells y hy
        · exact hcells _ hmem
      obtain ⟨hlen, hall⟩ := ih h hcells'
      exact ⟨hlen.trans (length_setCell hset), hall⟩
    · cases h
      exact ⟨rfl, hcells⟩

end Padding

/-! ### Copying -/

section Copying

variable {stepType : StepType} {target current i sum : Nat} {profile tail slope : List Nat}

theorem copyProfile_forall {rest : List Nat} {out : Nat × Nat × List Nat}
    (h : copyProfile stepType target rest current i sum slope = .ok out)
    (hcurrent : current < 2 ^ 16) (hcells : ∀ x ∈ slope, x < 2 ^ 16) :
    out.2.2.length = slope.length ∧ ∀ x ∈ out.2.2, x < 2 ^ 16 := by
  induction rest generalizing current i sum slope with
  | nil => cases h
  | cons x rest ih =>
    unfold copyProfile at h
    split at h
    · obtain ⟨slope', hset, h⟩ := FaultState.bind_eq_ok.mp h
      obtain ⟨next, _, h⟩ := FaultState.bind_eq_ok.mp h
      have hslope : slope' = slope.set i current := by
        unfold setCell at hset
        split_ifs at hset
        cases hset
        rfl
      have hcells' : ∀ y ∈ slope', y < 2 ^ 16 := by
        intro y hy
        rw [hslope] at hy
        rcases List.mem_or_eq_of_mem_set hy with hy | rfl
        · exact hcells y hy
        · exact hcurrent
      obtain ⟨hlen, hall⟩ := ih h (Nat.mod_lt _ (by omega)) hcells'
      exact ⟨hlen.trans (length_setCell hset), hall⟩
    · cases h
      exact ⟨rfl, hcells⟩

/-- The loop copies the steps down to the target. -/
theorem copyProfile_eq (hnz : 0 ∉ profile) (hlt : ∀ x ∈ profile.tail, x < 2 ^ 16)
    (hroom : i + profile.length ≤ slope.length) :
    copyProfile stepType target (profile ++ 0 :: tail) current i sum slope =
      .ok (i + (copiedFrom stepType target current profile).length,
        sum + (copiedFrom stepType target current profile).sum,
        overwrite slope i (copiedFrom stepType target current profile)) := by
  induction profile generalizing current i sum slope with
  | nil =>
    rw [List.nil_append, copyProfile, if_neg (by simp)]
    simp [copiedFrom, stepLengths, overwrite_nil]
    rfl
  | cons x profile ih =>
    have hx : x ≠ 0 := fun h => hnz (by simp [h])
    have hlen : i < slope.length := by
      rw [List.length_cons] at hroom
      omega
    rw [List.cons_append, copyProfile]
    by_cases htarget : target ≤ current
    · have hnext : ∃ next, cellAt (profile ++ 0 :: tail) 0 = .ok next ∧
          copiedFrom stepType target current (x :: profile) =
            current :: copiedFrom stepType target ((next >>> stepType.val) % 2 ^ 16) profile := by
        cases profile with
        | nil => exact ⟨0, rfl, by simp [copiedFrom, stepLengths, htarget]⟩
        | cons y profile =>
          have hy : y >>> stepType.val % 2 ^ 16 = y >>> stepType.val := by
            apply Nat.mod_eq_of_lt
            rw [Nat.shiftRight_eq_div_pow]
            exact lt_of_le_of_lt (Nat.div_le_self _ _) (hlt y (by simp))
          refine ⟨y, rfl, ?_⟩
          rw [hy]
          simp [copiedFrom, stepLengths, htarget]
      obtain ⟨next, hcell, hcopied⟩ := hnext
      have hset : setCell slope i current = .ok (slope.set i current) := setCell_of_lt hlen
      rw [if_pos ⟨hx, htarget⟩, hset, FaultState.ok_bind, hcell, FaultState.ok_bind,
        ih (fun h => hnz (List.mem_cons_of_mem _ h))
          (fun y hy => hlt y (List.mem_of_mem_tail hy))
          (by rw [List.length_set]; rw [List.length_cons] at hroom; omega),
        hcopied, overwrite_cons hlen, List.length_cons, List.sum_cons]
      congr 2
      · omega
      · congr 1
        omega
    · rw [if_neg (fun h => htarget h.2)]
      simp [copiedFrom, stepLengths, htarget, overwrite_nil]
      rfl

end Copying

theorem length_copiedPart_le {stepType : StepType} {target : Nat} {profile : List Nat} :
    (copiedPart stepType target profile).length ≤ profile.length := by
  refine (List.takeWhile_prefix _).length_le.trans ?_
  cases profile with
  | nil => exact Nat.le_refl 0
  | cons x profile => simp [stepLengths]

theorem le_of_mem_copiedPart {stepType : StepType} {target x : Nat} {profile : List Nat}
    (h : x ∈ copiedPart stepType target profile) : target ≤ x := by
  have hx := List.mem_takeWhile_imp h
  exact of_decide_eq_true hx

/-- The copied steps are as long as the ones before, or shorter. -/
theorem copiedPart_pairwise {stepType : StepType} {target : Nat} {profile : List Nat}
    (h : profile.Pairwise (· ≥ ·)) :
    (copiedPart stepType target profile).Pairwise (· ≥ ·) := by
  refine List.Pairwise.sublist (List.takeWhile_sublist _) ?_
  cases h with
  | nil => exact List.Pairwise.nil
  | @cons x profile hx hprofile =>
    have hshift : ∀ y : Nat, y >>> stepType.val ≤ y := by
      intro y
      rw [Nat.shiftRight_eq_div_pow]
      exact Nat.div_le_self _ _
    refine List.Pairwise.cons ?_ ?_
    · intro y hy
      obtain ⟨z, hz, rfl⟩ := List.mem_map.mp hy
      exact (hshift z).trans (hx z hz)
    · refine hprofile.map _ fun a b hab => ?_
      rw [Nat.shiftRight_eq_div_pow, Nat.shiftRight_eq_div_pow]
      exact Nat.div_le_div_right hab

theorem le_head_of_mem_copiedPart {stepType : StepType} {target x : Nat} {profile : List Nat}
    (hprofile : profile.Pairwise (· ≥ ·)) (h : x ∈ copiedPart stepType target profile) :
    x ≤ profile.headD 0 := by
  have hx := (List.takeWhile_sublist _).subset h
  cases hprofile with
  | nil => cases hx
  | @cons y profile hy _ =>
    rcases List.mem_cons.mp hx with rfl | hx
    · exact Nat.le_refl _
    · obtain ⟨z, hz, rfl⟩ := List.mem_map.mp hx
      rw [Nat.shiftRight_eq_div_pow]
      exact (Nat.div_le_self _ _).trans (hy z hz)

/-! ### The aligned length -/

section Aligned

variable {factor n : Nat}

theorem le_roundUp (hfactor : 0 < factor) : n ≤ (n + factor - 1) / factor * factor := by
  have hlt := Nat.lt_mul_div_succ (n + factor - 1) hfactor
  rw [Nat.mul_succ, Nat.mul_comm] at hlt
  omega

/-- No index between a length and the next multiple of the factor is a multiple. -/
theorem mod_ne_zero_of_lt_roundUp {k : Nat} (hn : n ≤ k)
    (hk : k < (n + factor - 1) / factor * factor) : k % factor ≠ 0 := by
  intro hmod
  obtain ⟨m, rfl⟩ := Nat.dvd_of_mod_eq_zero hmod
  rw [Nat.mul_comm factor m] at hk hn
  have hm : m < (n + factor - 1) / factor := Nat.lt_of_mul_lt_mul_right hk
  have hle : (m + 1) * factor ≤ n + factor - 1 := by
    have hdiv := Nat.div_mul_le_self (n + factor - 1) factor
    exact (Nat.mul_le_mul_right factor hm).trans hdiv
  rw [Nat.succ_mul] at hle
  have hpos : 0 < factor := by
    rcases Nat.eq_zero_or_pos factor with rfl | hpos
    · simp at hk
    · exact hpos
  omega

theorem dvd_paddedLength : factor ∣ paddedLength factor n := by
  rcases Nat.le_total (2 * factor) ((n + factor - 1) / factor * factor) with h | h
  · rw [paddedLength, Nat.max_eq_right h]
    exact Nat.dvd_mul_left _ _
  · rw [paddedLength, Nat.max_eq_left h]
    exact Nat.dvd_mul_left _ _

/-- The first loop of the padding. -/
theorem alignLoop_ok {sum target : Nat} {slope : List Nat} (hfactor : 0 < factor)
    (hend : (n + factor - 1) / factor * factor = n ∨
      (n + factor - 1) / factor * factor < slope.length)
    (hfill : ∀ k, n ≤ k → k < slope.length → slope[k]? = some target) :
    padLoop (fun i => i % factor != 0) (slope.length - (n + 1)) n sum slope =
      .ok ((n + factor - 1) / factor * factor,
        sum + ((n + factor - 1) / factor * factor - n) * target, slope) := by
  have hround : ((n + factor - 1) / factor * factor % factor != 0) = false := by
    rw [Nat.mul_mod_left]
    rfl
  refine padLoop_ok (le_roundUp hfactor) hend rfl (fun k hk hlt => ?_) hround hfill
  simp [mod_ne_zero_of_lt_roundUp hk hlt]

/-- The slope is padded where the padding ends in front of the last cell. -/
theorem padSlope_ok {sum target : Nat} {slope : List Nat} (hfactor : 0 < factor)
    (hend : paddedLength factor n = n ∨ paddedLength factor n < slope.length)
    (hfill : ∀ k, n ≤ k → k < slope.length → slope[k]? = some target) :
    padSlope factor n sum slope =
      .ok (paddedLength factor n, sum + (paddedLength factor n - n) * target, slope) := by
  have hle : n ≤ (n + factor - 1) / factor * factor := le_roundUp hfactor
  unfold padSlope
  unfold paddedLength at *
  generalize hround : (n + factor - 1) / factor * factor = r at *
  have halign : padLoop (fun i => i % factor != 0) (slope.length - (n + 1)) n sum slope =
      .ok (r, sum + (r - n) * target, slope) := by
    subst hround
    exact alignLoop_ok hfactor (by omega) hfill
  have hminimal : padLoop (fun i => decide (i < 2 * factor)) (slope.length - (r + 1)) r
      (sum + (r - n) * target) slope =
        .ok (max (2 * factor) r,
          sum + (r - n) * target + (max (2 * factor) r - r) * target, slope) := by
    refine padLoop_ok (Nat.le_max_right _ _) (by omega) rfl (fun k hk hlt => ?_) ?_
      (fun k hk => hfill k (by omega))
    · apply decide_eq_true
      omega
    · apply decide_eq_false
      omega
  have hsteps : r - n + (max (2 * factor) r - r) = max (2 * factor) r - n := by omega
  rw [halign, FaultState.ok_bind]
  dsimp only
  rw [hminimal, Nat.add_assoc, ← Nat.add_mul, hsteps]

/-- Otherwise a step of the padding is written behind the table. -/
theorem padSlope_fault {sum target : Nat} {slope : List Nat} (hfactor : 0 < factor)
    (hn : paddedLength factor n ≠ n)
    (hend : slope.length ≤ paddedLength factor n)
    (hfill : ∀ k, n ≤ k → k < slope.length → slope[k]? = some target) :
    padSlope factor n sum slope = .error .outOfBounds := by
  have hle : n ≤ (n + factor - 1) / factor * factor := le_roundUp hfactor
  unfold padSlope
  unfold paddedLength at *
  by_cases halign : (n + factor - 1) / factor * factor = n ∨
      (n + factor - 1) / factor * factor < slope.length
  · rw [alignLoop_ok hfactor halign hfill, FaultState.ok_bind]
    dsimp only
    generalize (n + factor - 1) / factor * factor = r at *
    apply padLoop_fault rfl
    · apply decide_eq_true
      omega
    · intro k hk hlt
      apply decide_eq_true
      omega
  · have hbelow : ∀ k, n ≤ k → k < slope.length ∨ k = n → (k % factor != 0) = true := by
      intro k hk hlt
      have hmod := mod_ne_zero_of_lt_roundUp hk
        (show k < (n + factor - 1) / factor * factor by omega)
      simp [hmod]
    have hfirst : padLoop (fun i => i % factor != 0) (slope.length - (n + 1)) n sum slope =
        .error .outOfBounds :=
      padLoop_fault rfl (hbelow n (Nat.le_refl n) (.inr rfl))
        (fun k hk hlt => hbelow k (Nat.le_of_lt hk) (.inl hlt))
    rw [hfirst, FaultState.error_bind]

end Aligned

/-! ### The slope table -/

section Table

variable {slope : List Nat} {dpi exposure baseDpi factor : Nat} {stepType : StepType}
  {motorType : Int} {motors : List MotorProfile} {profile : MotorProfile} {steps tail : List Nat}

/-- The target speed, without truncation. -/
def targetSpeed (dpi exposure baseDpi : Nat) (stepType : StepType) : Nat :=
  (exposure * dpi / baseDpi) >>> stepType.val

/-- The table before it is padded. -/
def copiedTable (stepType : StepType) (target : Nat) (steps : List Nat) : List Nat :=
  copiedPart stepType target steps ++
    List.replicate (SLOPE_TABLE_SIZE - (copiedPart stepType target steps).length) target

theorem length_copiedTable {target : Nat} (hlen : steps.length ≤ SLOPE_TABLE_SIZE) :
    (copiedTable stepType target steps).length = SLOPE_TABLE_SIZE := by
  have hcopied := @length_copiedPart_le stepType target steps
  rw [copiedTable, List.length_append, List.length_replicate]
  omega

theorem fillTable (hslope : slope.length = SLOPE_TABLE_SIZE) (target : Nat) :
    storeCells slope 0 (List.replicate SLOPE_TABLE_SIZE target) =
      .ok (List.replicate SLOPE_TABLE_SIZE target) := by
  have hlen : (List.replicate SLOPE_TABLE_SIZE target).length = SLOPE_TABLE_SIZE :=
    List.length_replicate
  rw [storeCells, if_pos (by omega), overwrite, List.take_zero, List.nil_append,
    List.drop_eq_nil_of_le (by omega), List.append_nil]

/-- Every cell of a table that is returned has 16 bits. -/
theorem slopeTable_forall {sum n : Nat} {out : List Nat}
    (hslope : slope.length = SLOPE_TABLE_SIZE) (hbase : 0 < baseDpi)
    (h : slopeTable slope dpi exposure baseDpi stepType factor motorType motors =
      .ok (sum, n, out)) :
    exposure * dpi < 2 ^ 31 ∧ ∀ x ∈ out, x < 2 ^ 16 := by
  unfold slopeTable at h
  rw [if_neg (Nat.pos_iff_ne_zero.mp hbase)] at h
  obtain ⟨product, hproduct, h⟩ := FaultState.bind_eq_ok.mp h
  obtain ⟨filled, hfill, h⟩ := FaultState.bind_eq_ok.mp h
  obtain ⟨profile, _, h⟩ := FaultState.bind_eq_ok.mp h
  obtain ⟨first, _, h⟩ := FaultState.bind_eq_ok.mp h
  obtain ⟨⟨i, sum₁, slope₁⟩, hcopy, h⟩ := FaultState.bind_eq_ok.mp h
  obtain ⟨⟨j, sum₂, slope₂⟩, hpad, h⟩ := FaultState.bind_eq_ok.mp h
  obtain ⟨⟨k, sum₃, slope₃⟩, halign, hminimal⟩ := FaultState.bind_eq_ok.mp hpad
  cases h
  constructor
  · rw [intValue_natCast] at hproduct
    split_ifs at hproduct with hlt
    exact hlt
  · rw [fillTable hslope] at hfill
    cases hfill
    have hcells : ∀ x ∈ List.replicate SLOPE_TABLE_SIZE
        ((exposure * dpi / baseDpi) >>> stepType.val % 2 ^ 16), x < 2 ^ 16 := by
      intro x hx
      rw [List.eq_of_mem_replicate hx]
      exact Nat.mod_lt _ (by omega)
    have hcopied := (copyProfile_forall hcopy (Nat.mod_lt _ (by omega)) hcells).2
    have haligned := (padLoop_forall halign hcopied).2
    exact (padLoop_forall hminimal haligned).2

/-- A run where nothing is truncated comes to the padding. -/
theorem slopeTable_eq (hslope : slope.length = SLOPE_TABLE_SIZE) (hbase : 0 < baseDpi)
    (hprofile : getMotorProfile motors motorType exposure = .ok profile)
    (htable : profile.table = steps ++ 0 :: tail) (hnz : 0 ∉ steps)
    (hmono : steps.Pairwise (· ≥ ·)) (hlen : steps.length ≤ SLOPE_TABLE_SIZE)
    (hproduct : exposure * dpi < 2 ^ 31)
    (htarget : targetSpeed dpi exposure baseDpi stepType < 2 ^ 16)
    (hfirst : steps.headD 0 < 2 ^ 16) :
    slopeTable slope dpi exposure baseDpi stepType factor motorType motors =
      (padSlope factor
        (copiedPart stepType (targetSpeed dpi exposure baseDpi stepType) steps).length
        (copiedPart stepType (targetSpeed dpi exposure baseDpi stepType) steps).sum
        (copiedTable stepType (targetSpeed dpi exposure baseDpi stepType) steps) >>=
          fun out => .ok (out.2.1, out.1 / factor, out.2.2)) := by
  have hmod : (exposure * dpi / baseDpi) >>> stepType.val % 2 ^ 16 =
      targetSpeed dpi exposure baseDpi stepType := Nat.mod_eq_of_lt htarget
  have hcell : cellAt profile.table 0 = .ok (steps.headD 0) := by
    rw [htable]
    cases steps with
    | nil => rfl
    | cons x steps => rfl
  have htail : ∀ x ∈ steps.tail, x < 2 ^ 16 := by
    cases hmono with
    | nil => intro x hx; cases hx
    | cons hx _ => exact fun y hy => lt_of_le_of_lt (hx y hy) hfirst
  generalize targetSpeed dpi exposure baseDpi stepType = target at *
  have hcopied := @length_copiedPart_le stepType target steps
  have hcopy := @copyProfile_eq stepType target (steps.headD 0) 0 0 steps tail
    (List.replicate SLOPE_TABLE_SIZE target) hnz htail
    (by rw [List.length_replicate]; omega)
  have hover : overwrite (List.replicate SLOPE_TABLE_SIZE target) 0
      (copiedPart stepType target steps) = copiedTable stepType target steps := by
    rw [overwrite, List.take_zero, List.nil_append, Nat.zero_add, List.drop_replicate]
    rfl
  unfold slopeTable
  rw [intValue_natCast, if_pos hproduct, FaultState.ok_bind]
  simp only [hmod]
  rw [if_neg (Nat.pos_iff_ne_zero.mp hbase), fillTable hslope, FaultState.ok_bind, hprofile,
    FaultState.ok_bind, hcell,
    FaultState.ok_bind, Nat.mod_eq_of_lt hfirst, htable, hcopy, FaultState.ok_bind]
  change (padSlope factor (0 + (copiedPart stepType target steps).length)
    (0 + (copiedPart stepType target steps).sum) (overwrite _ 0 (copiedPart stepType target steps))
      >>= fun out => Except.ok (out.2.1, out.1 / factor, out.2.2)) = _
  rw [hover, Nat.zero_add, Nat.zero_add]

/-- The padded table is a slope table. -/
theorem tabulated_copiedTable {target : Nat} (hfactor : 0 < factor)
    (hmono : steps.Pairwise (· ≥ ·)) (hlen : steps.length ≤ SLOPE_TABLE_SIZE)
    (htarget : target < 2 ^ 16) (hfirst : steps.headD 0 < 2 ^ 16)
    (hend : paddedLength factor (copiedPart stepType target steps).length ≤ SLOPE_TABLE_SIZE) :
    Tabulated target (copiedPart stepType target steps) factor
      ((copiedPart stepType target steps).sum +
        (paddedLength factor (copiedPart stepType target steps).length -
          (copiedPart stepType target steps).length) * target)
      (paddedLength factor (copiedPart stepType target steps).length / factor)
      (copiedTable stepType target steps) := by
  have hsteps : paddedLength factor (copiedPart stepType target steps).length / factor * factor =
      paddedLength factor (copiedPart stepType target steps).length :=
    Nat.div_mul_cancel dvd_paddedLength
  have hle : (copiedPart stepType target steps).length ≤
      paddedLength factor (copiedPart stepType target steps).length :=
    (le_roundUp hfactor).trans (Nat.le_max_right _ _)
  have hsum : (copiedPart stepType target steps).sum +
      (paddedLength factor (copiedPart stepType target steps).length -
        (copiedPart stepType target steps).length) * target =
      ((copiedTable stepType target steps).take
        (paddedLength factor (copiedPart stepType target steps).length)).sum := by
    rw [copiedTable, List.take_append, List.take_of_length_le hle, List.take_replicate,
      List.sum_append, List.sum_replicate_nat, Nat.min_eq_left (by omega)]
  have hcells : ∀ x ∈ copiedTable stepType target steps, x < 2 ^ 16 := by
    intro x hx
    rcases List.mem_append.mp hx with hx | hx
    · exact lt_of_le_of_lt (le_head_of_mem_copiedPart hmono hx) hfirst
    · rw [List.eq_of_mem_replicate hx]
      exact htarget
  have hlength : (copiedTable stepType target steps).length = SLOPE_TABLE_SIZE :=
    length_copiedTable hlen
  constructor
  case length => exact hlength
  case table => rfl
  case nonincreasing =>
    refine List.pairwise_append.mpr ⟨copiedPart_pairwise hmono, ?_, ?_⟩
    · exact List.pairwise_replicate.mpr (.inr (Nat.le_refl _))
    · intro x hx y hy
      rw [List.eq_of_mem_replicate hy]
      exact le_of_mem_copiedPart hx
  case copied_le =>
    rw [hsteps]
    exact hle
  case minimal =>
    rw [hsteps]
    exact Nat.le_max_left _ _
  case inside =>
    rw [hsteps]
    exact hend
  case sum_eq =>
    rw [hsteps]
    exact hsum
  case sum_lt =>
    rw [hsum]
    have htake := List.sum_le_card_nsmul ((copiedTable stepType target steps).take
      (paddedLength factor (copiedPart stepType target steps).length)) (2 ^ 16)
      (fun x hx => (hcells x (List.mem_of_mem_take hx)).le)
    have hcount := List.length_take_le' (paddedLength factor
      (copiedPart stepType target steps).length) (copiedTable stepType target steps)
    rw [hlength] at hcount
    have hsize : SLOPE_TABLE_SIZE = 1024 := rfl
    rw [nsmul_eq_mul, Nat.cast_id] at htake
    omega

/-- A target that does not have 16 bits stands in no table. -/
theorem target_lt_of_cells {target : Nat} (hlen : steps.length ≤ SLOPE_TABLE_SIZE)
    (hcells : ∀ x ∈ copiedTable stepType target steps, x < 2 ^ 16) : target < 2 ^ 16 := by
  have hpos : 0 < (copiedTable stepType target steps).length := by
    rw [length_copiedTable hlen]
    decide
  obtain ⟨x, hx⟩ := List.exists_mem_of_length_pos hpos
  rcases List.mem_append.mp hx with hcopied | hrest
  · exact lt_of_le_of_lt (le_of_mem_copiedPart hcopied) (hcells x hx)
  · rw [← List.eq_of_mem_replicate hrest]
    exact hcells x hx

/-- A first step that does not have 16 bits stands in no table. -/
theorem first_lt_of_cells {target : Nat} (htarget : target < 2 ^ 16)
    (hcells : ∀ x ∈ copiedTable stepType target steps, x < 2 ^ 16) :
    steps.headD 0 < 2 ^ 16 := by
  cases steps with
  | nil => decide
  | cons first steps =>
    by_cases hslow : target ≤ first
    · apply hcells
      apply List.mem_append_left
      have htake : copiedPart stepType target (first :: steps) =
          first :: (steps.map (· >>> stepType.val)).takeWhile (target ≤ ·) := by
        simp [copiedPart, copiedFrom, stepLengths, hslow]
      rw [htake]
      exact List.mem_cons_self
    · exact (not_le.mp hslow).trans htarget

/-- The slope table is right exactly when nothing is truncated and the padding ends in front of
    the last cell, or there is none. -/
theorem slopeTable_iff (hslope : slope.length = SLOPE_TABLE_SIZE) (hbase : 0 < baseDpi)
    (hfactor : 0 < factor)
    (hprofile : getMotorProfile motors motorType exposure = .ok profile)
    (htable : profile.table = steps ++ 0 :: tail) (hnz : 0 ∉ steps)
    (hmono : steps.Pairwise (· ≥ ·)) (hlen : steps.length ≤ SLOPE_TABLE_SIZE) :
    (∃ sum n out, slopeTable slope dpi exposure baseDpi stepType factor motorType motors =
        .ok (sum, n, out) ∧
      Tabulated (targetSpeed dpi exposure baseDpi stepType)
        (copiedPart stepType (targetSpeed dpi exposure baseDpi stepType) steps) factor sum n out) ↔
      exposure * dpi < 2 ^ 31 ∧ targetSpeed dpi exposure baseDpi stepType < 2 ^ 16 ∧
        steps.headD 0 < 2 ^ 16 ∧
        (paddedLength factor
            (copiedPart stepType (targetSpeed dpi exposure baseDpi stepType) steps).length =
              (copiedPart stepType (targetSpeed dpi exposure baseDpi stepType) steps).length ∨
          paddedLength factor
            (copiedPart stepType (targetSpeed dpi exposure baseDpi stepType) steps).length <
              SLOPE_TABLE_SIZE) := by
  have hfill : ∀ target k, (copiedPart stepType target steps).length ≤ k →
      k < (copiedTable stepType target steps).length →
      (copiedTable stepType target steps)[k]? = some target := by
    intro target k hk hlt
    rw [length_copiedTable hlen] at hlt
    rw [copiedTable, List.getElem?_append_right hk, List.getElem?_replicate_of_lt (by omega)]
  constructor
  · rintro ⟨sum, n, out, hrun, htab⟩
    obtain ⟨hproduct, hcells⟩ := slopeTable_forall hslope hbase hrun
    rw [htab.table] at hcells
    have htarget := target_lt_of_cells hlen hcells
    have hfirst := first_lt_of_cells htarget hcells
    refine ⟨hproduct, htarget, hfirst, ?_⟩
    rw [slopeTable_eq hslope hbase hprofile htable hnz hmono hlen hproduct htarget hfirst] at hrun
    by_contra hend
    rw [padSlope_fault hfactor (fun h => hend (.inl h))
      (by rw [length_copiedTable hlen]; omega) (hfill _)] at hrun
    cases hrun
  · rintro ⟨hproduct, htarget, hfirst, hend⟩
    refine ⟨_, _, _, ?_, tabulated_copiedTable hfactor hmono hlen htarget hfirst ?_⟩
    · rw [slopeTable_eq hslope hbase hprofile htable hnz hmono hlen hproduct htarget hfirst,
        padSlope_ok hfactor (by rw [length_copiedTable hlen]; exact hend) (hfill _)]
      rfl
    · have hcopied := @length_copiedPart_le stepType
        (targetSpeed dpi exposure baseDpi stepType) steps
      omega

/-- A slope of two steps. -/
theorem slopeTable_two_steps : ∃ sum n out,
    slopeTable (List.replicate SLOPE_TABLE_SIZE 0) 1 7 1 0 2 5 [⟨5, 7, [20, 10, 0]⟩, ⟨0, 0, []⟩] =
        .ok (sum, n, out) ∧
      Tabulated (targetSpeed 1 7 1 0) (copiedPart 0 (targetSpeed 1 7 1 0) [20, 10]) 2 sum n out :=
  (@slopeTable_iff (List.replicate SLOPE_TABLE_SIZE 0) 1 7 1 2 0 5
    [⟨5, 7, [20, 10, 0]⟩, ⟨0, 0, []⟩] ⟨5, 7, [20, 10, 0]⟩ [20, 10] [] List.length_replicate
    (by decide) (by decide) rfl rfl (by decide) (by decide) (by decide)).mpr
    ⟨by decide, by decide, by decide, by decide⟩

/-- A profile of 1022 steps, all slower than the target, with a step multiplier of 4: the
    padding stores the entry 1024. -/
theorem slopeTable_behind :
    ¬∃ sum n out, slopeTable (List.replicate SLOPE_TABLE_SIZE 0) 75 56064 2400 0 4 5
        [⟨5, 56064, List.replicate 1022 2238 ++ [0]⟩, ⟨0, 0, []⟩] = .ok (sum, n, out) := by
  have hsteps : stepLengths 0 2238 (List.replicate 1022 2238) = List.replicate 1022 2238 := by
    rw [List.replicate_succ, stepLengths, List.map_replicate]
    rfl
  have hcopied : copiedPart 0 (targetSpeed 75 56064 2400 0) (List.replicate 1022 2238) =
      List.replicate 1022 2238 := by
    change (stepLengths 0 2238 (List.replicate 1022 2238)).takeWhile (1752 ≤ ·) = _
    rw [hsteps, List.takeWhile_eq_self_iff]
    intro x hx
    rw [List.eq_of_mem_replicate hx]
    rfl
  have hfill : ∀ k, 1022 ≤ k →
      k < (copiedTable 0 (targetSpeed 75 56064 2400 0) (List.replicate 1022 2238)).length →
      (copiedTable 0 (targetSpeed 75 56064 2400 0) (List.replicate 1022 2238))[k]? =
        some (targetSpeed 75 56064 2400 0) := by
    intro k hk hlt
    rw [length_copiedTable (by rw [List.length_replicate]; decide)] at hlt
    rw [copiedTable, hcopied, List.length_replicate, List.getElem?_append_right
      (by rw [List.length_replicate]; exact hk), List.getElem?_replicate_of_lt]
    rw [List.length_replicate]
    unfold SLOPE_TABLE_SIZE at *
    omega
  rintro ⟨sum, n, out, hrun⟩
  rw [@slopeTable_eq _ _ _ _ _ _ _ _ ⟨5, 56064, List.replicate 1022 2238 ++ [0]⟩
    (List.replicate 1022 2238) [] List.length_replicate (by decide) rfl rfl
    (fun h => absurd (List.eq_of_mem_replicate h) (by decide))
    (List.pairwise_replicate.mpr (.inr (Nat.le_refl _)))
    (by rw [List.length_replicate]; decide) (by decide) (by decide) (by decide), hcopied,
    List.length_replicate, padSlope_fault (by decide) (by decide)
      (by rw [length_copiedTable (by rw [List.length_replicate]; decide)]; decide) hfill] at hrun
  cases hrun

end Table

end SaneBackends.Genesys
