import SaneBackends.SaneFormats
import SaneBackends.GridRounding

/-!
# Checking and constraining option values

`sanei/sanei_constrain_value.c`.  A value is a buffer of bytes; the descriptor says
whether it is read as words or as a string.  A buffer is not resized: reading or
storing past its end is undefined.
-/

namespace SaneBackends

open FaultState WordBytes Overwrite

/-! ### Memory -/

def followPtr {α : Type} : Ptr α → Except Fault α
  | .null => .error .nullPointer
  | .wild => .error .wildPointer
  | .block a => .ok a

/-- The bytes of a word in the memory of the host, least significant first. -/
def hostBytes (v : SaneWord) : List SaneByte := (bytesBE v).reverse

/-- `array[i]`. -/
def loadWord (value : List SaneByte) (i : Nat) : Except Fault SaneWord :=
  if 4 * i + 4 ≤ value.length then .ok (ofBytesBE ((value.drop (4 * i)).take 4).reverse)
  else .error .outOfBounds

/-- `array[i] = v`. -/
def storeWord (value : List SaneByte) (i : Nat) (v : SaneWord) : Except Fault (List SaneByte) :=
  if 4 * i + 4 ≤ value.length then .ok (overwrite value (4 * i) (hostBytes v))
  else .error .outOfBounds

/-- `word_list[i]`. -/
def wordIn (ws : List SaneWord) (i : Nat) : Except Fault SaneWord :=
  match ws[i]? with
  | some w => .ok w
  | none => .error .outOfBounds

/-! ### What the two functions share -/

/-- The number of elements of a value; single values are arrays of length 1. -/
def elementCount (size : SaneWord) : Nat := if 0 < size.toInt then size.toNat / 4 else 1

/-- `(unsigned int) (a - min + quant / 2) / quant * quant + min`. -/
def quantize (range : SaneRange) (a : SaneWord) : SaneWord :=
  (a - range.min + range.quant.sdiv 2) / range.quant * range.quant + range.min

/-! ### `sanei_check_value` -/

/-- The loops over the elements of a value: none may be bad. -/
def checkElements (allowed : SaneWord → Except Fault Bool) (value : List SaneByte) :
    Nat → Nat → Except Fault SaneStatus
  | 0, _ => .ok .good
  | n + 1, i => do
      let a ← loadWord value i
      if ← allowed a then checkElements allowed value n (i + 1)
      else return .inval

/-- The tests on an element of a range. -/
def rangeAllows (range : Ptr SaneRange) (a : SaneWord) : Except Fault Bool := do
  let r ← followPtr range
  if a.slt r.min || r.max.slt a then return false
  if r.quant ≠ 0 then return quantize r a == a
  return true

def boolAllows (a : SaneWord) : Except Fault Bool := .ok (a == SANE_TRUE || a == SANE_FALSE)

/-- `for (i = 1; w != word_list[i]; ++i) if (i >= word_list[0]) return …`, with `n` the
    number of elements from `i` on. -/
def wordListHas (ws : List SaneWord) (w : SaneWord) : Nat → Nat → Except Fault SaneStatus
  | n, i => do
      let x ← wordIn ws i
      if w = x then return .good
      match n with
      | 0 => return .inval
      | n + 1 => wordListHas ws w n (i + 1)

/-- The search for a string that is equal. -/
def stringListHas (value : List SaneByte) (len : Nat) : List SaneString → Except Fault SaneStatus
  | [] => .error .outOfBounds
  | .null :: _ => .ok .inval
  | .wild :: _ => .error .wildPointer
  | .block s :: ss => do
      if ← strncmpEqual value s len then
        if len = (← strlen s) then return .good
      stringListHas value len ss

def saneiCheckValue (opt : SaneOptionDescriptor) (value : List SaneByte) :
    Except Fault SaneStatus :=
  if opt.constraintType = SANE_CONSTRAINT_RANGE then
    checkElements (rangeAllows opt.constraint.asRange) value (elementCount opt.size) 0
  else if opt.constraintType = SANE_CONSTRAINT_WORD_LIST then do
    let w ← loadWord value 0
    let ws ← followPtr opt.constraint.asWordList
    let n ← wordIn ws 0
    wordListHas ws w (n.toInt - 1).toNat 1
  else if opt.constraintType = SANE_CONSTRAINT_STRING_LIST then do
    let len ← strlen value
    let ss ← followPtr opt.constraint.asStringList
    stringListHas value len ss
  else if opt.constraintType = SANE_CONSTRAINT_NONE ∧ opt.type = SANE_TYPE_BOOL then
    checkElements boolAllows value (elementCount opt.size) 0
  else .ok .good

/-! ### `sanei_constrain_value` -/

/-- `*info |= SANE_INFO_INEXACT`, if there is an `info`. -/
def inexact (info : Option SaneWord) : Option SaneWord := info.map (· ||| SANE_INFO_INEXACT)

/-- Replacing an element is recorded in `*info`. -/
def replaceIf (c : Bool) (v : SaneWord) (e : SaneWord × Option SaneWord) :
    SaneWord × Option SaneWord :=
  if c then (v, inexact e.2) else e

/-- What becomes of one element of a range. -/
def constrainElement (range : SaneRange) (a : SaneWord) (info : Option SaneWord) :
    SaneWord × Option SaneWord :=
  let e := replaceIf (a.slt range.min) range.min (a, info)
  let e := replaceIf (range.max.slt e.1) range.max e
  replaceIf (range.quant != 0 && quantize range e.1 != e.1) (quantize range e.1) e

def constrainElements (range : Ptr SaneRange) :
    Nat → Nat → List SaneByte → Option SaneWord → Except Fault (List SaneByte × Option SaneWord)
  | 0, _, value, info => .ok (value, info)
  | n + 1, i, value, info => do
      let a ← loadWord value i
      let r ← followPtr range
      let e := constrainElement r a info
      constrainElements range n (i + 1) (← storeWord value i e.1) e.2

/-- The index of the nearest word, from `i` on and starting with `k` at distance `v`. -/
def nearestWord (ws : List SaneWord) (w : SaneWord) :
    Nat → Nat → Nat → SaneWord → Except Fault Nat
  | 0, _, k, _ => .ok k
  | n + 1, i, k, v => do
      let x ← wordIn ws i
      let vh := (w - x).abs
      if vh.slt v then nearestWord ws w n (i + 1) i vh
      else nearestWord ws w n (i + 1) k v

/-- How the search through a string list ends. -/
inductive StringMatch where
  /-- A string of the same length; the search ends there. -/
  | exact (s : List SaneByte)
  /-- `num_matches`, and the last string that matches. -/
  | counted (numMatches : Nat) (lastMatch : Option (List SaneByte))
deriving DecidableEq, Repr

def matchStrings (value : List SaneByte) (len : Nat) :
    List SaneString → Nat → Option (List SaneByte) → Except Fault StringMatch
  | [], _, _ => .error .outOfBounds
  | .null :: _, numMatches, lastMatch => .ok (.counted numMatches lastMatch)
  | .wild :: _, _, _ => .error .wildPointer
  | .block s :: ss, numMatches, lastMatch => do
      if ← strncasecmpEqual value s len then
        let slen ← strlen s
        if len ≤ slen then
          if len = slen then return .exact s
          matchStrings value len ss (numMatches + 1) (some s)
        else matchStrings value len ss numMatches lastMatch
      else matchStrings value len ss numMatches lastMatch

/-- `sanei_constrain_value`: the status, the value and `*info` afterwards. -/
def saneiConstrainValue (opt : SaneOptionDescriptor) (value : List SaneByte)
    (info : Option SaneWord) : Except Fault (SaneStatus × List SaneByte × Option SaneWord) :=
  if opt.constraintType = SANE_CONSTRAINT_RANGE then do
    let (value, info) ←
      constrainElements opt.constraint.asRange (elementCount opt.size) 0 value info
    return (.good, value, info)
  else if opt.constraintType = SANE_CONSTRAINT_WORD_LIST then do
    let w ← loadWord value 0
    let ws ← followPtr opt.constraint.asWordList
    let first ← wordIn ws 1
    let n ← wordIn ws 0
    let k ← nearestWord ws w n.toInt.toNat 1 1 (w - first).abs
    let x ← wordIn ws k
    if w ≠ x then return (.good, ← storeWord value 0 x, inexact info)
    else return (.good, value, info)
  else if opt.constraintType = SANE_CONSTRAINT_STRING_LIST then do
    let len ← strlen value
    let ss ← followPtr opt.constraint.asStringList
    match ← matchStrings value len ss 0 none with
    | .exact s =>
        if ← strcmpEqual value s then return (.good, value, info)
        else return (.good, ← strcpy value s, info)
    | .counted numMatches lastMatch =>
        if numMatches > 1 then return (.inval, value, info)
        else if numMatches = 1 then
          match lastMatch with
          | some s => return (.good, ← strcpy value s, info)
          | none => throw .outOfBounds  -- `string_list[-1]`
        else return (.inval, value, info)
  else if opt.constraintType = SANE_CONSTRAINT_NONE ∧ opt.type = SANE_TYPE_BOOL then do
    let b ← loadWord value 0
    if b ≠ SANE_TRUE ∧ b ≠ SANE_FALSE then return (.inval, value, info)
    else return (.good, value, info)
  else .ok (.good, value, info)

/-! ### Loading and storing words -/

theorem ofBytesBE_hostBytes (v : SaneWord) : ofBytesBE (hostBytes v).reverse = v := by
  rw [hostBytes, List.reverse_reverse, ofBytesBE_bytesBE]

theorem loadWord_eq_ok {value : List SaneByte} {i : Nat} {a : SaneWord}
    (h : loadWord value i = .ok a) : 4 * i + 4 ≤ value.length := by
  by_contra hlen
  rw [loadWord, if_neg hlen] at h
  cases h

theorem loadWord_ok {value : List SaneByte} {i : Nat} (h : 4 * i + 4 ≤ value.length) :
    ∃ a, loadWord value i = .ok a := ⟨_, if_pos h⟩

theorem length_storeWord {value value' : List SaneByte} {i : Nat} {v : SaneWord}
    (h : storeWord value i v = .ok value') : value'.length = value.length := by
  rw [storeWord] at h
  split_ifs at h with hlen
  cases h
  exact length_overwrite (by simpa [hostBytes] using hlen)

theorem loadWord_storeWord {value value' : List SaneByte} {i j : Nat} {v : SaneWord}
    (h : storeWord value i v = .ok value') :
    loadWord value' j = if j = i then .ok v else loadWord value j := by
  have hlength := length_storeWord h
  rw [storeWord] at h
  split_ifs at h with hlen
  cases h
  have hbytes : (hostBytes v).length = 4 := rfl
  split_ifs with hji
  · subst hji
    have htake : (((overwrite value (4 * j) (hostBytes v)).drop (4 * j)).take 4) = hostBytes v := by
      apply List.ext_getElem?
      intro k
      by_cases hk : k < 4
      · rw [List.getElem?_take_of_lt hk, List.getElem?_drop,
          getElem?_overwrite_mid (by omega) (by omega)]
      · rw [List.getElem?_eq_none (by rw [List.length_take]; omega),
          List.getElem?_eq_none (by omega)]
    rw [loadWord, if_pos (by omega), htake, ofBytesBE_hostBytes]
  · have htake : (((overwrite value (4 * i) (hostBytes v)).drop (4 * j)).take 4) =
        (value.drop (4 * j)).take 4 := by
      apply List.ext_getElem?
      intro k
      by_cases hk : k < 4
      · rw [List.getElem?_take_of_lt hk, List.getElem?_take_of_lt hk, List.getElem?_drop,
          List.getElem?_drop]
        rcases Nat.lt_or_gt_of_ne hji with hlt | hgt
        · exact getElem?_overwrite_before (by omega) (by omega)
        · exact getElem?_overwrite_after (by omega) (by omega)
      · rw [List.getElem?_eq_none (by rw [List.length_take]; omega),
          List.getElem?_eq_none (by rw [List.length_take]; omega)]
    rw [loadWord, loadWord, htake, hlength]

theorem wordIn_eq_ok {ws : List SaneWord} {i : Nat} {w : SaneWord} :
    wordIn ws i = .ok w ↔ ws[i]? = some w := by
  unfold wordIn
  cases ws[i]? with
  | none => simp
  | some x => simp

/-! ### The loops -/

/-- A check is passed when every element passes. -/
theorem checkElements_eq_good {allowed : SaneWord → Except Fault Bool} {value : List SaneByte}
    {n i : Nat} :
    checkElements allowed value n i = .ok .good ↔
      ∀ j, i ≤ j → j < i + n → ∃ a, loadWord value j = .ok a ∧ allowed a = .ok true := by
  induction n generalizing i with
  | zero =>
    refine ⟨fun _ j h₁ h₂ => absurd h₂ (by omega), fun _ => rfl⟩
  | succ n ih =>
    rw [checkElements, bind_eq_ok]
    constructor
    · rintro ⟨a, ha, h⟩
      obtain ⟨b, hb, h⟩ := bind_eq_ok.mp h
      cases b with
      | false => cases h
      | true =>
        intro j h₁ h₂
        by_cases hji : j = i
        · subst hji
          exact ⟨a, ha, hb⟩
        · exact ih.mp h j (by omega) (by omega)
    · intro h
      obtain ⟨a, ha, hb⟩ := h i (le_refl i) (by omega)
      refine ⟨a, ha, bind_eq_ok.mpr ⟨true, hb, ?_⟩⟩
      exact ih.mpr fun j h₁ h₂ => h j (by omega) (by omega)

/-- What becomes of an element, without the `info`. -/
def constrained (range : SaneRange) (a : SaneWord) : SaneWord := (constrainElement range a none).1

theorem replaceIf_fst (c : Bool) (v : SaneWord) (e : SaneWord × Option SaneWord) :
    (replaceIf c v e).1 = if c then v else e.1 := by cases c <;> rfl

theorem constrainElement_fst (range : SaneRange) (a : SaneWord) (info : Option SaneWord) :
    (constrainElement range a info).1 = constrained range a := by
  simp only [constrained, constrainElement, replaceIf_fst]

/-- Each element is constrained, and the others stay as they were. -/
theorem constrainElements_spec {range : Ptr SaneRange} {n i : Nat} {value value' : List SaneByte}
    {info info' : Option SaneWord}
    (h : constrainElements range n i value info = .ok (value', info')) :
    value'.length = value.length ∧
      (∀ j, i ≤ j → j < i + n → ∃ a r, loadWord value j = .ok a ∧ followPtr range = .ok r ∧
        loadWord value' j = .ok (constrained r a)) ∧
      ∀ j, j < i ∨ i + n ≤ j → loadWord value' j = loadWord value j := by
  induction n generalizing i value info with
  | zero =>
    cases h
    exact ⟨rfl, fun j h₁ h₂ => absurd h₂ (by omega), fun _ _ => rfl⟩
  | succ n ih =>
    obtain ⟨a, ha, h⟩ := bind_eq_ok.mp h
    obtain ⟨r, hr, h⟩ := bind_eq_ok.mp h
    obtain ⟨stored, hstored, h⟩ := bind_eq_ok.mp h
    obtain ⟨hlen, hin, hout⟩ := ih h
    rw [constrainElement_fst] at hstored
    refine ⟨hlen.trans (length_storeWord hstored), fun j h₁ h₂ => ?_, fun j hj => ?_⟩
    · by_cases hji : j = i
      · subst hji
        refine ⟨a, r, ha, hr, ?_⟩
        rw [hout j (.inl (by omega)), loadWord_storeWord hstored, if_pos rfl]
      · obtain ⟨b, r', hb, hr', hb'⟩ := hin j (by omega) (by omega)
        rw [loadWord_storeWord hstored, if_neg hji] at hb
        exact ⟨b, r', hb, hr', hb'⟩
    · rw [hout j (by omega), loadWord_storeWord hstored, if_neg (by omega)]

/-- The nearest word is one of those looked at. -/
theorem nearestWord_spec {ws : List SaneWord} {w v : SaneWord} {n i k k' : Nat}
    (h : nearestWord ws w n i k v = .ok k') : k' = k ∨ i ≤ k' ∧ k' < i + n := by
  induction n generalizing i k v with
  | zero =>
    cases h
    exact .inl rfl
  | succ n ih =>
    obtain ⟨x, -, h⟩ := bind_eq_ok.mp h
    simp only at h
    split_ifs at h
    · rcases ih h with rfl | ⟨h₁, h₂⟩
      · exact .inr ⟨le_refl _, by omega⟩
      · exact .inr ⟨by omega, by omega⟩
    · rcases ih h with rfl | ⟨h₁, h₂⟩
      · exact .inl rfl
      · exact .inr ⟨by omega, by omega⟩

/-- A word of the list is found, when the list has all the words it says. -/
theorem wordListHas_eq_good {ws : List SaneWord} {w : SaneWord} {n i k : Nat}
    (hlen : i + n < ws.length) (h₁ : i ≤ k) (h₂ : k ≤ i + n) (hk : wordIn ws k = .ok w) :
    wordListHas ws w n i = .ok .good := by
  induction n generalizing i with
  | zero =>
    obtain rfl : k = i := by omega
    rw [wordListHas, hk]
    simp [bind, Except.bind, pure, Except.pure]
  | succ n ih =>
    have hx : wordIn ws i = .ok ws[i] := (wordIn_eq_ok).mpr (List.getElem?_eq_getElem _)
    rw [wordListHas, hx]
    simp only [bind, Except.bind]
    by_cases hw : w = ws[i]
    · rw [if_pos hw]
      rfl
    · rw [if_neg hw]
      have hne : k ≠ i := by
        rintro rfl
        rw [hx] at hk
        cases hk
        exact hw rfl
      exact ih (by omega) (by omega) (by omega)

/-! ### The string lists -/

/-- A list of strings in memory, with the null pointer at its end. -/
def stringBlocks (blocks : List (List SaneByte)) : List SaneString := blocks.map .block ++ [.null]

/-- The string in a block is the value, apart from case. -/
def EqualNoCase (value s : List SaneByte) : Prop :=
  (cString value).map toLower = (cString s).map toLower

/-- The string in a block begins with the value, apart from case. -/
def AbbreviatesNoCase (value s : List SaneByte) : Prop :=
  (cString value).map toLower <+: (cString s).map toLower

instance (value s : List SaneByte) : Decidable (EqualNoCase value s) :=
  inferInstanceAs (Decidable (_ = _))

instance (value s : List SaneByte) : Decidable (AbbreviatesNoCase value s) :=
  inferInstanceAs (Decidable (_ <+: _))

theorem EqualNoCase.abbreviates {value s : List SaneByte} (h : EqualNoCase value s) :
    AbbreviatesNoCase value s := by
  rw [AbbreviatesNoCase, h]

theorem strncasecmpEqual_eq {value s : List SaneByte} (hv : 0 ∈ value) (hs : 0 ∈ s) :
    strncasecmpEqual value s (cString value).length = .ok (decide (AbbreviatesNoCase value s)) := by
  rw [strncasecmpEqual, strnEqual_eq toLower_eq_zero hv hs, List.take_length]
  congr 1
  apply decide_eq_decide.mpr
  rw [AbbreviatesNoCase, List.prefix_iff_eq_take, List.length_map, List.map_take]

theorem strncmpEqual_eq {value s : List SaneByte} (hv : 0 ∈ value) (hs : 0 ∈ s) :
    strncmpEqual value s (cString value).length =
      .ok (decide (cString value = (cString s).take (cString value).length)) := by
  rw [strncmpEqual, @strnEqual_eq id (fun _ => Iff.rfl) _ _ _ hv hs, List.take_length]
  simp

/-- A string of the list is found. -/
theorem stringListHas_eq_good {value : List SaneByte} {blocks : List (List SaneByte)}
    (hv : 0 ∈ value) (hblocks : ∀ s ∈ blocks, 0 ∈ s)
    (h : ∃ s ∈ blocks, cString value = cString s) :
    stringListHas value (cString value).length (stringBlocks blocks) = .ok .good := by
  induction blocks with
  | nil =>
    obtain ⟨s, hs, -⟩ := h
    cases hs
  | cons b blocks ih =>
    have hb : 0 ∈ b := hblocks b (by simp)
    have hstep : stringListHas value (cString value).length (stringBlocks (b :: blocks)) =
        if cString value = cString b then .ok .good
        else stringListHas value (cString value).length (stringBlocks blocks) := by
      change stringListHas value _ (.block b :: stringBlocks blocks) = _
      rw [stringListHas, strncmpEqual_eq hv hb, strlen_of_mem hb]
      by_cases heq : cString value = cString b
      · rw [if_pos heq, heq, List.take_length]
        simp [bind, Except.bind, pure, Except.pure]
      · rw [if_neg heq]
        by_cases htake : cString value = (cString b).take (cString value).length
        · have hlen : (cString value).length ≠ (cString b).length := by
            intro hlen
            rw [hlen, List.take_length] at htake
            exact heq htake
          simp [bind, Except.bind, ← htake, hlen]
        · simp [bind, Except.bind, htake]
    rw [hstep]
    split_ifs with heq
    · rfl
    · apply ih fun s hs => hblocks s (by simp [hs])
      obtain ⟨s, hs, hval⟩ := h
      rcases List.mem_cons.mp hs with rfl | hs
      · exact absurd hval heq
      · exact ⟨s, hs, hval⟩

/-- The search ends at a string of the same length, or has counted what matches. -/
theorem matchStrings_spec {value : List SaneByte} {blocks : List (List SaneByte)}
    (hv : 0 ∈ value) (hblocks : ∀ s ∈ blocks, 0 ∈ s) (num : Nat) (last : Option (List SaneByte)) :
    (∃ s ∈ blocks, EqualNoCase value s ∧
      matchStrings value (cString value).length (stringBlocks blocks) num last = .ok (.exact s)) ∨
    ((∀ s ∈ blocks, ¬ EqualNoCase value s) ∧ ∃ last',
      matchStrings value (cString value).length (stringBlocks blocks) num last =
        .ok (.counted (num + blocks.countP (AbbreviatesNoCase value ·)) last') ∧
      ((blocks.countP (AbbreviatesNoCase value ·) = 0 ∧ last' = last) ∨
        ∃ s ∈ blocks, AbbreviatesNoCase value s ∧ last' = some s)) := by
  induction blocks generalizing num last with
  | nil => exact .inr ⟨by simp, last, rfl, .inl ⟨rfl, rfl⟩⟩
  | cons b blocks ih =>
    have hb : 0 ∈ b := hblocks b (by simp)
    have hrest : ∀ s ∈ blocks, 0 ∈ s := fun s hs => hblocks s (by simp [hs])
    have hunfold : matchStrings value (cString value).length (stringBlocks (b :: blocks)) num last =
        matchStrings value (cString value).length (.block b :: stringBlocks blocks) num last := rfl
    rw [hunfold, matchStrings, strncasecmpEqual_eq hv hb, strlen_of_mem hb]
    by_cases hpre : AbbreviatesNoCase value b
    · have hle : (cString value).length ≤ (cString b).length := by
        simpa using hpre.length_le
      by_cases hlen : (cString value).length = (cString b).length
      · -- a beginning of the same length is the whole string
        have heq : EqualNoCase value b := hpre.eq_of_length (by simpa using hlen)
        refine .inl ⟨b, by simp, heq, ?_⟩
        simp [bind, Except.bind, pure, Except.pure, hpre, hlen]
      · have hne : ¬ EqualNoCase value b := fun h => hlen (by simpa using congrArg List.length h)
        have hcount : (b :: blocks).countP (AbbreviatesNoCase value ·) =
            blocks.countP (AbbreviatesNoCase value ·) + 1 :=
          List.countP_cons_of_pos (by simpa using hpre)
        have hstep : (do
            if ← Except.ok (decide (AbbreviatesNoCase value b)) then
              let slen ← Except.ok (cString b).length
              if (cString value).length ≤ slen then
                if (cString value).length = slen then return .exact b
                matchStrings value (cString value).length (stringBlocks blocks) (num + 1) (some b)
              else matchStrings value (cString value).length (stringBlocks blocks) num last
            else matchStrings value (cString value).length (stringBlocks blocks) num last :
              Except Fault StringMatch) =
            matchStrings value (cString value).length (stringBlocks blocks) (num + 1) (some b) := by
          simp [bind, Except.bind, hpre, hle, hlen]
        rw [hstep, hcount]
        rcases ih hrest (num + 1) (some b) with ⟨s, hs, heq, hrun⟩ | ⟨hnone, last', hrun, hlast⟩
        · exact .inl ⟨s, by simp [hs], heq, hrun⟩
        · refine .inr ⟨?_, last', ?_, .inr ?_⟩
          · intro s hs
            rcases List.mem_cons.mp hs with rfl | hs
            · exact hne
            · exact hnone s hs
          · rw [hrun]
            congr 2
            omega
          · rcases hlast with ⟨-, rfl⟩ | ⟨s, hs, hmatch, rfl⟩
            · exact ⟨b, by simp, hpre, rfl⟩
            · exact ⟨s, by simp [hs], hmatch, rfl⟩
    · have hne : ¬ EqualNoCase value b := fun h => hpre h.abbreviates
      have hcount : (b :: blocks).countP (AbbreviatesNoCase value ·) =
          blocks.countP (AbbreviatesNoCase value ·) := List.countP_cons_of_neg (by simpa using hpre)
      rw [hcount]
      simp only [hpre, bind, Except.bind, decide_false, Bool.false_eq_true, ↓reduceIte]
      rcases ih hrest num last with ⟨s, hs, heq, hrun⟩ | ⟨hnone, last', hrun, hlast⟩
      · exact .inl ⟨s, by simp [hs], heq, hrun⟩
      · refine .inr ⟨?_, last', hrun, ?_⟩
        · intro s hs
          rcases List.mem_cons.mp hs with rfl | hs
          · exact hne
          · exact hnone s hs
        · rcases hlast with h | ⟨s, hs, hmatch, rfl⟩
          · exact .inl h
          · exact .inr ⟨s, by simp [hs], hmatch, rfl⟩

end SaneBackends
