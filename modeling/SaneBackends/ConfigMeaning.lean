import SaneBackends.ConfigLine

/-!
# What a line of a configuration file means

The meaning of a line in its own terms: the keyword `option` is a word of its own, all words of a
value have to be there, a string is cut to the size of its option and always ends with a NUL.
The code agrees with it on the lines for which `LineClear` holds.
-/

namespace SaneBackends.SaneiConfig

open FaultState Overwrite SignedWords

variable {fix : CStr → SaneWord} {ds : List SaneOptionDescriptor} {d : SaneOptionDescriptor}

/-! ### The meaning of a line -/

/-- Some word begins there. -/
def HasWord (lp : CStr) : Prop := saneiConfigSkipWhitespace lp ≠ []

instance (lp : CStr) : Decidable (HasWord lp) := inferInstanceAs (Decidable (_ ≠ _))

/-- The words of a value that are there, `n` at most; nothing if one cannot be read. -/
def givenWords (conv : CStr → Option SaneWord) : Nat → CStr → Option (List SaneWord)
  | 0, _ => some []
  | n + 1, lp =>
    if HasWord lp then
      match saneiConfigGetString lp with
      | (none, _) => none
      | (some string, lp) =>
        match conv string with
        | none => none
        | some w => (givenWords conv n lp).map (w :: ·)
    else some []

/-- A string within the size of its option. -/
def fitString (d : SaneOptionDescriptor) (string : CStr) : List SaneByte :=
  string.take (d.size.toInt.toNat - 1) ++ [0]

/-- The value that the rest of a line gives to an option, nothing if it is missing. -/
def givenValue (fix : CStr → SaneWord) (d : SaneOptionDescriptor) (lp : CStr) :
    Option (List SaneByte) :=
  match wordOf fix d.type with
  | some conv =>
    match givenWords conv (wordsOf d) lp with
    | none => none
    | some ws => if ws.length = wordsOf d then some (ws.flatMap hostBytes) else none
  | none =>
    if d.type = SANE_TYPE_STRING then
      if HasWord lp then (saneiConfigGetString lp).1.map (fitString d) else none
    else some []

/-- The first option of a name. -/
def optionNamed (name : CStr) :
    List SaneOptionDescriptor → Nat → Option (Nat × SaneOptionDescriptor)
  | [], _ => none
  | d :: ds, i =>
    match d.name with
    | .block bs => if cString bs = name then some (i, d) else optionNamed name ds (i + 1)
    | _ => optionNamed name ds (i + 1)

/-- The name of the option in a line, if there is one, and the rest of the line. -/
def optionName (line : CStr) : Option CStr × CStr :=
  match saneiConfigGetString line with
  | (some token, lp) => if token = optionWord then saneiConfigGetString lp else (some token, lp)
  | (none, lp) => (none, lp)

/-- What should be done when this is the name of an option and the rest of the line. -/
def tokenMeaning (fix : CStr → SaneWord) (ds : List SaneOptionDescriptor) (line : CStr)
    (token : Option CStr × CStr) : SaneStatus × List Event :=
  match token.1.bind fun name => optionNamed name ds 0 with
  | none => (.good, [.attach line])
  | some (i, d) =>
    match givenValue fix d token.2 with
    | none => (.inval, [])
    | some value =>
      if saneiCheckValue d value = .ok .good then (.good, [.store i value]) else (.inval, [])

/-- What should be done for a line, and whether it is in order. -/
def lineMeaning (fix : CStr → SaneWord) (ds : List SaneOptionDescriptor) (line : CStr) :
    SaneStatus × List Event :=
  if line = [] ∨ line.head? = some 0x23 then (.good, [])
  else tokenMeaning fix ds line (optionName line)

/-- The values after something has been done. -/
def applyEvent (values : List (List SaneByte)) : Event → List (List SaneByte)
  | .attach _ => values
  | .store i value =>
    match values[i]? with
    | some old => values.set i (overwrite old 0 value)
    | none => values

/-! ### Options that can be configured -/

/-- The descriptor is a proper one for its type, and there is room for its value. -/
structure OptionProper (d : SaneOptionDescriptor) (old : List SaneByte) : Prop where
  name : ∃ bs, d.name = .block bs ∧ 0 ∈ bs
  proper : d.ConstraintProper
  room : d.size.toInt ≤ old.length
  words : d.type = SANE_TYPE_INT ∨ d.type = SANE_TYPE_BOOL ∨ d.type = SANE_TYPE_FIXED →
    0 < d.size.toInt ∧ d.size.toInt % 4 = 0 ∧ d.constraintType ≠ SANE_CONSTRAINT_STRING_LIST
  string : d.type = SANE_TYPE_STRING → 0 < d.size.toInt ∧
    d.constraintType ≠ SANE_CONSTRAINT_RANGE ∧ d.constraintType ≠ SANE_CONSTRAINT_WORD_LIST
  other : d.type = SANE_TYPE_BUTTON ∨ d.type = SANE_TYPE_GROUP →
    d.constraintType = SANE_CONSTRAINT_NONE
  type : d.type.toNat ≤ 5

/-! ### Lines on which the code is right -/

/-- The constraint does not refuse the value. -/
def Passes (d : SaneOptionDescriptor) (value : List SaneByte) : Prop :=
  saneiCheckValue d value = .ok .good

/-- A value is complete, or the constraint refuses what the code makes of it: number words that
    are missing are read as an empty word, a missing string is an empty one.  A string fits with
    its NUL, or the constraint refuses what is left of it.  An option without a value finds no
    `size` of an earlier one. -/
def ValueClear (fix : CStr → SaneWord) (d : SaneOptionDescriptor) (lp : CStr) (size : Int) :
    Prop :=
  match wordOf fix d.type with
  | some conv => ∀ ws, givenWords conv (wordsOf d) lp = some ws → ws.length = wordsOf d ∨
      ∀ w, conv [] = some w →
        ¬ Passes d ((ws ++ List.replicate (wordsOf d - ws.length) w).flatMap hostBytes)
  | none =>
    if d.type = SANE_TYPE_STRING then
      if HasWord lp then
        ∀ string, (saneiConfigGetString lp).1 = some string →
          string.length < d.size.toInt ∨ ¬ Passes d (fitString d string)
      else ¬ Passes d [0]
    else size = 0

/-- The name is complete, and so is the value if it is that of an option. -/
def TokenClear (fix : CStr → SaneWord) (ds : List SaneOptionDescriptor)
    (token : Option CStr × CStr) (size : Int) : Prop :=
  match token.1 with
  | none => ds = []
  | some name => ∀ i d, optionNamed name ds 0 = some (i, d) → ValueClear fix d token.2 size

/-- The first word is complete.  If it begins like the keyword without being it, neither it nor
    the next word names an option. -/
def LineClear (fix : CStr → SaneWord) (ds : List SaneOptionDescriptor) (line : CStr) (size : Int) :
    Prop :=
  line = [] ∨ line.head? = some 0x23 ∨
    match saneiConfigGetString line with
    | (none, _) => False
    | (some token, lp) =>
      if token = optionWord then TokenClear fix ds (saneiConfigGetString lp) size
      else if optionWord <+: token then
        optionNamed token ds 0 = none ∧
          match (saneiConfigGetString lp).1 with
          | none => ds = []
          | some next => optionNamed next ds 0 = none
      else TokenClear fix ds (some token, lp) size

/-! ### Words -/

theorem getString_of_not_hasWord {lp : CStr} (h : ¬ HasWord lp) :
    saneiConfigGetString lp = (some [], []) := by
  have hnil : saneiConfigSkipWhitespace lp = [] := not_not.mp h
  simp [saneiConfigGetString, hnil]

/-- The words are parts of the line. -/
theorem getString_subset (lp : CStr) :
    (∀ string, (saneiConfigGetString lp).1 = some string → string ⊆ lp) ∧
      (saneiConfigGetString lp).2 ⊆ lp := by
  have hskip : saneiConfigSkipWhitespace lp ⊆ lp := (List.dropWhile_suffix _).subset
  unfold saneiConfigGetString
  dsimp only
  split_ifs with hquote
  · have htail : (saneiConfigSkipWhitespace lp).tail ⊆ lp :=
      List.Subset.trans (List.tail_suffix _).subset hskip
    split
    · exact ⟨fun string h => (nomatch h), List.nil_subset _⟩
    · next b rest hrest =>
      have hsub : b :: rest ⊆ (saneiConfigSkipWhitespace lp).tail := by
        rw [← hrest]
        exact (List.dropWhile_suffix _).subset
      refine ⟨fun string h => ?_,
        List.Subset.trans (List.subset_cons_self b rest) (List.Subset.trans hsub htail)⟩
      cases h
      exact List.Subset.trans (List.takeWhile_prefix _).subset htail
  · refine ⟨fun string h => ?_, List.Subset.trans (List.dropWhile_suffix _).subset hskip⟩
    cases h
    exact List.Subset.trans (List.takeWhile_prefix _).subset hskip

/-- Behind the end of the line every word is read as an empty one. -/
theorem parseWords_of_not_hasWord {conv : CStr → Option SaneWord} {lp : CStr} {n : Nat}
    (h : ¬ HasWord lp) (hn : 0 < n) :
    parseWords conv n lp = (conv []).map fun w => List.replicate n w := by
  induction n generalizing lp with
  | zero => exact absurd hn (Nat.lt_irrefl 0)
  | succ n ih =>
    rw [parseWords, getString_of_not_hasWord h]
    dsimp only
    cases hconv : conv [] with
    | none => rfl
    | some w =>
      rcases Nat.eq_zero_or_pos n with rfl | hpos
      · rfl
      · have hend : ¬ HasWord [] := fun h => h rfl
        rw [ih hend hpos, hconv]
        rfl

theorem length_givenWords {conv : CStr → Option SaneWord} {n : Nat} {lp : CStr}
    {ws : List SaneWord} (h : givenWords conv n lp = some ws) : ws.length ≤ n := by
  induction n generalizing lp ws with
  | zero =>
    cases h
    exact Nat.le_refl 0
  | succ n ih =>
    rw [givenWords] at h
    split_ifs at h
    · split at h
      · cases h
      · split at h
        · cases h
        · obtain ⟨ws', hws', rfl⟩ := Option.map_eq_some_iff.mp h
          have := ih hws'
          simp only [List.length_cons]
          omega
    · cases h
      exact Nat.zero_le _

/-- The code reads the words that are there and completes them by empty ones. -/
theorem parseWords_eq (conv : CStr → Option SaneWord) (n : Nat) (lp : CStr) :
    parseWords conv n lp =
      match givenWords conv n lp with
      | none => none
      | some ws =>
        if ws.length = n then some ws
        else (conv []).map fun w => ws ++ List.replicate (n - ws.length) w := by
  induction n generalizing lp with
  | zero => rfl
  | succ n ih =>
    by_cases hword : HasWord lp
    · rw [parseWords, givenWords, if_pos hword]
      rcases saneiConfigGetString lp with ⟨_ | string, lp'⟩
      · rfl
      · dsimp only
        cases conv string with
        | none => rfl
        | some w =>
          dsimp only
          rw [ih]
          cases givenWords conv n lp' with
          | none => rfl
          | some ws =>
            dsimp only [Option.map_some]
            by_cases hlen : ws.length = n
            · rw [if_pos hlen, if_pos (by rw [List.length_cons, hlen])]
              rfl
            · rw [if_neg hlen, if_neg (by rw [List.length_cons]; omega), List.length_cons,
                Nat.add_sub_add_right]
              cases conv [] with
              | none => rfl
              | some z => rfl
    · rw [parseWords_of_not_hasWord hword (Nat.succ_pos n), givenWords, if_neg hword]
      rfl

/-! ### The search for the option -/

theorem findOption_eq {name : CStr} (hname : ∀ b ∈ name, b ≠ 0)
    (hds : ∀ d ∈ ds, ∃ bs, d.name = .block bs ∧ 0 ∈ bs) (i : Nat) :
    findOption (some name) ds i = .ok (optionNamed name ds i) := by
  have htext : cString (name ++ [0]) = name := cString_append hname []
  induction ds generalizing i with
  | nil => rfl
  | cons d ds ih =>
    obtain ⟨bs, hbs, hzero⟩ := hds d List.mem_cons_self
    have hcmp : nameIs d (some name) = .ok (decide (cString bs = name)) := by
      rw [nameIs, hbs]
      change strcmpEqual bs (name ++ [0]) = _
      rw [strcmpEqual_eq hzero (by simp), htext]
    rw [findOption, hcmp, optionNamed, hbs]
    dsimp only
    by_cases heq : cString bs = name
    · simp [heq, bind, Except.bind, pure, Except.pure]
    · simp only [bind, Except.bind, heq, decide_false, Bool.false_eq_true, if_false]
      exact ih (fun d hd => hds d (List.mem_cons_of_mem _ hd)) (i + 1)

theorem optionNamed_spec {name : CStr} {i k : Nat} (h : optionNamed name ds i = some (k, d)) :
    ∃ j, k = i + j ∧ ds[j]? = some d := by
  induction ds generalizing i with
  | nil => cases h
  | cons e ds ih =>
    have hlater : optionNamed name ds (i + 1) = some (k, d) →
        ∃ j, k = i + j ∧ (e :: ds)[j]? = some d := by
      intro h
      obtain ⟨j, rfl, hj⟩ := ih h
      exact ⟨j + 1, by omega, hj⟩
    rw [optionNamed] at h
    split at h
    · split_ifs at h
      · cases h
        exact ⟨0, rfl, rfl⟩
      · exact hlater h
    · exact hlater h

/-! ### The check of a value -/

theorem checkElements_cases {allowed : SaneWord → Except Fault Bool} {value : List SaneByte}
    (hallowed : ∀ a, ∃ b, allowed a = .ok b) {n i : Nat} (hlen : 4 * (i + n) ≤ value.length) :
    checkElements allowed value n i = .ok .good ∨ checkElements allowed value n i = .ok .inval := by
  induction n generalizing i with
  | zero => exact .inl rfl
  | succ n ih =>
    have hfit : 4 * i + 4 ≤ value.length := by omega
    obtain ⟨a, ha⟩ := loadWord_ok hfit
    obtain ⟨b, hb⟩ := hallowed a
    rw [checkElements, ha]
    simp only [bind, Except.bind, hb]
    cases b with
    | true => exact ih (by omega)
    | false => exact .inr rfl

theorem wordListHas_cases {ws : List SaneWord} {w : SaneWord} {n i : Nat}
    (hlen : i + n < ws.length) :
    wordListHas ws w n i = .ok .good ∨ wordListHas ws w n i = .ok .inval := by
  induction n generalizing i with
  | zero =>
    have hx : wordIn ws i = .ok ws[i] := wordIn_eq_ok.mpr (List.getElem?_eq_getElem _)
    rw [wordListHas, hx]
    simp only [bind, Except.bind]
    split_ifs
    · exact .inl rfl
    · exact .inr rfl
  | succ n ih =>
    have hx : wordIn ws i = .ok ws[i] := wordIn_eq_ok.mpr (List.getElem?_eq_getElem _)
    rw [wordListHas, hx]
    simp only [bind, Except.bind]
    split_ifs
    · exact .inl rfl
    · exact ih (by omega)

theorem stringListHas_cases {value : List SaneByte} {blocks : List (List SaneByte)}
    (hv : 0 ∈ value) (hblocks : ∀ s ∈ blocks, 0 ∈ s) :
    stringListHas value (cString value).length (stringBlocks blocks) = .ok .good ∨
      stringListHas value (cString value).length (stringBlocks blocks) = .ok .inval := by
  induction blocks with
  | nil => exact .inr rfl
  | cons b blocks ih =>
    have hb : 0 ∈ b := hblocks b List.mem_cons_self
    have ih := ih fun s hs => hblocks s (List.mem_cons_of_mem _ hs)
    change stringListHas value _ (.block b :: stringBlocks blocks) = _ ∨
      stringListHas value _ (.block b :: stringBlocks blocks) = _
    rw [stringListHas, strncmpEqual_eq hv hb, strlen_of_mem hb]
    simp only [bind, Except.bind]
    split_ifs
    · exact .inl rfl
    · exact ih
    · exact ih

theorem rangeAllows_total (r : SaneRange) (a : SaneWord) :
    ∃ b, rangeAllows (.block r) a = .ok b := by
  simp only [rangeAllows, followPtr, bind, Except.bind, pure, Except.pure]
  split_ifs
  · exact ⟨_, rfl⟩
  · exact ⟨_, rfl⟩
  · exact ⟨_, rfl⟩

/-- The check of a number value. -/
theorem checkWords_cases (hproper : d.ConstraintProper)
    (hlist : d.constraintType ≠ SANE_CONSTRAINT_STRING_LIST) (hpos : 0 < d.size.toInt)
    {value : List SaneByte} (hlen : d.size.toInt ≤ value.length) (hfour : d.size.toInt % 4 = 0) :
    saneiCheckValue d value = .ok .good ∨ saneiCheckValue d value = .ok .inval := by
  have hcount : 4 * (0 + elementCount d.size) ≤ value.length := by
    have hnat := toNat_of_nonneg (k := d.size) (by omega)
    rw [elementCount, if_pos hpos]
    omega
  rcases constraintType_cases d.constraintType with htype | htype | htype | ⟨h₁, h₂, h₃⟩
  · obtain ⟨r, hr, -⟩ := hproper.range htype
    rw [saneiCheckValue, if_pos htype, hr]
    exact checkElements_cases (rangeAllows_total r) hcount
  · have h₁ : d.constraintType ≠ SANE_CONSTRAINT_RANGE := by rw [htype]; decide
    obtain ⟨n, ws, hws, hn, hne⟩ := hproper.wordList htype
    have hfirst : 4 * 0 + 4 ≤ value.length := by omega
    obtain ⟨w, hw⟩ := loadWord_ok hfirst
    rw [saneiCheckValue, if_neg h₁, if_pos htype, hw, hws]
    have hone := List.length_pos_iff.mpr hne
    refine @wordListHas_cases (n :: ws) w _ 1 ?_
    rw [List.length_cons]
    omega
  · exact absurd htype hlist
  · rw [saneiCheckValue, if_neg h₁, if_neg h₂, if_neg h₃]
    split_ifs
    · exact checkElements_cases (fun a => ⟨_, rfl⟩) hcount
    · exact .inl rfl

/-- The check of a string. -/
theorem checkString_cases (hproper : d.ConstraintProper) (htype : d.type = SANE_TYPE_STRING)
    (hrange : d.constraintType ≠ SANE_CONSTRAINT_RANGE)
    (hlist : d.constraintType ≠ SANE_CONSTRAINT_WORD_LIST) {value : List SaneByte}
    (hv : 0 ∈ value) :
    saneiCheckValue d value = .ok .good ∨ saneiCheckValue d value = .ok .inval := by
  have hbool : ¬ (d.constraintType = SANE_CONSTRAINT_NONE ∧ d.type = SANE_TYPE_BOOL) := by
    rw [htype]
    rintro ⟨-, h⟩
    exact absurd h (by decide)
  rw [saneiCheckValue, if_neg hrange, if_neg hlist, if_neg hbool]
  split_ifs with hstring
  · obtain ⟨blocks, hss, -, hblocks⟩ := hproper.stringList hstring
    rw [strlen_of_mem hv, hss]
    exact stringListHas_cases hv hblocks
  · exact .inl rfl

theorem stringListHas_congr {value value' : List SaneByte} {blocks : List (List SaneByte)}
    (hv : 0 ∈ value) (hv' : 0 ∈ value') (h : cString value = cString value')
    (hblocks : ∀ s ∈ blocks, 0 ∈ s) :
    stringListHas value (cString value).length (stringBlocks blocks) =
      stringListHas value' (cString value').length (stringBlocks blocks) := by
  induction blocks with
  | nil => rfl
  | cons b blocks ih =>
    have hb : 0 ∈ b := hblocks b List.mem_cons_self
    have ih := ih fun s hs => hblocks s (List.mem_cons_of_mem _ hs)
    change stringListHas value _ (.block b :: stringBlocks blocks) =
      stringListHas value' _ (.block b :: stringBlocks blocks)
    rw [stringListHas, stringListHas, strncmpEqual_eq hv hb, strncmpEqual_eq hv' hb, ih, h]

/-- The check of a string does not see the bytes behind its NUL. -/
theorem checkString_congr (hproper : d.ConstraintProper) (htype : d.type = SANE_TYPE_STRING)
    (hrange : d.constraintType ≠ SANE_CONSTRAINT_RANGE)
    (hlist : d.constraintType ≠ SANE_CONSTRAINT_WORD_LIST) {value value' : List SaneByte}
    (hv : 0 ∈ value) (hv' : 0 ∈ value') (h : cString value = cString value') :
    saneiCheckValue d value = saneiCheckValue d value' := by
  have hbool : ¬ (d.constraintType = SANE_CONSTRAINT_NONE ∧ d.type = SANE_TYPE_BOOL) := by
    rw [htype]
    rintro ⟨-, h⟩
    exact absurd h (by decide)
  rw [saneiCheckValue, saneiCheckValue, if_neg hrange, if_neg hrange, if_neg hlist, if_neg hlist,
    if_neg hbool, if_neg hbool]
  split_ifs with hstring
  · obtain ⟨blocks, hss, -, hblocks⟩ := hproper.stringList hstring
    rw [strlen_of_mem hv, strlen_of_mem hv', hss]
    exact stringListHas_congr hv hv' h hblocks
  · rfl

/-! ### The value of an option -/

/-- The code has a value that means `v`. -/
def Gives (d : SaneOptionDescriptor) (old value : List SaneByte) (size : Int)
    (v : List SaneByte) : Prop :=
  size = v.length ∧ value.take v.length = v ∧ v.length ≤ value.length ∧ v.length ≤ old.length ∧
    saneiCheckValue d value = saneiCheckValue d v ∧
    (saneiCheckValue d v = .ok .good ∨ saneiCheckValue d v = .ok .inval)

/-- The line gives no value that the option allows. -/
def NothingAllowed (fix : CStr → SaneWord) (d : SaneOptionDescriptor) (lp : CStr) : Prop :=
  ∀ v, givenValue fix d lp = some v → ¬ Passes d v

theorem length_hostWords (ws : List SaneWord) : (ws.flatMap hostBytes).length = 4 * ws.length := by
  induction ws with
  | nil => rfl
  | cons w ws ih =>
    rw [List.flatMap_cons, List.length_append, ih]
    change 4 + 4 * ws.length = 4 * (ws.length + 1)
    omega

/-- What the code makes of the rest of a line that is clear. -/
def ParsesClear (fix : CStr → SaneWord) (d : SaneOptionDescriptor) (old : List SaneByte)
    (lp : CStr) (size : Int) : Prop :=
  parseOption fix d lp size = .ok none ∧ givenValue fix d lp = none ∨
  ∃ value size', parseOption fix d lp size = .ok (some (value, size')) ∧
    ((∃ v, givenValue fix d lp = some v ∧ Gives d old value size' v) ∨
      saneiCheckValue d value = .ok .inval ∧ NothingAllowed fix d lp)

variable {old : List SaneByte} {lp : CStr} {size : Int}

theorem type_of_wordOf {conv : CStr → Option SaneWord} (h : wordOf fix d.type = some conv) :
    d.type = SANE_TYPE_INT ∨ d.type = SANE_TYPE_BOOL ∨ d.type = SANE_TYPE_FIXED := by
  unfold wordOf at h
  split_ifs at h with h₁ h₂ h₃
  · exact .inl h₁
  · exact .inr (.inl h₂)
  · exact .inr (.inr h₃)

/-- The value of a number option. -/
theorem parseWords_clear (hd : OptionProper d old) {conv : CStr → Option SaneWord}
    (hconv : wordOf fix d.type = some conv) (hclear : ValueClear fix d lp size) :
    ParsesClear fix d old lp size := by
  obtain ⟨hpos, hfour, hlist⟩ := hd.words (type_of_wordOf hconv)
  have hroom := hd.room
  have hwords : (4 * wordsOf d : Int) = d.size.toInt := by
    rw [wordsOf]
    omega
  have hcases : ∀ ws : List SaneWord, ws.length = wordsOf d →
      saneiCheckValue d (ws.flatMap hostBytes) = .ok .good ∨
        saneiCheckValue d (ws.flatMap hostBytes) = .ok .inval := by
    intro ws hws
    refine checkWords_cases hd.proper hlist hpos ?_ hfour
    rw [length_hostWords]
    omega
  have hparse : parseOption fix d lp size = .ok ((parseWords conv (wordsOf d) lp).map
      fun ws => (ws.flatMap hostBytes, d.size.toInt)) := by rw [parseOption, hconv]
  have hgiven : givenValue fix d lp =
      match givenWords conv (wordsOf d) lp with
      | none => none
      | some ws => if ws.length = wordsOf d then some (ws.flatMap hostBytes) else none := by
    rw [givenValue, hconv]
  rw [ValueClear, hconv] at hclear
  dsimp only at hclear
  rw [parseWords_eq] at hparse
  cases hws : givenWords conv (wordsOf d) lp with
  | none =>
    rw [hws] at hparse hgiven
    exact .inl ⟨hparse, hgiven⟩
  | some ws =>
    rw [hws] at hparse hgiven
    dsimp only at hparse hgiven
    by_cases hlen : ws.length = wordsOf d
    · rw [if_pos hlen] at hparse hgiven
      have hbytes := length_hostWords ws
      refine .inr ⟨_, _, hparse, .inl ⟨_, hgiven, ?_, List.take_length, Nat.le_refl _, ?_, rfl,
        hcases ws hlen⟩⟩
      · omega
      · omega
    · rw [if_neg hlen] at hparse hgiven
      have hrefused := (hclear ws hws).resolve_left hlen
      cases hempty : conv [] with
      | none =>
        rw [hempty] at hparse
        exact .inl ⟨hparse, hgiven⟩
      | some w =>
        rw [hempty] at hparse
        refine .inr ⟨_, _, hparse, .inr ⟨?_, ?_⟩⟩
        · refine (hcases _ ?_).resolve_left (hrefused w hempty)
          have hle := length_givenWords hws
          rw [List.length_append, List.length_replicate]
          omega
        · intro v hv
          rw [hgiven] at hv
          cases hv

/-- The value of a string option. -/
theorem parseString_clear (hd : OptionProper d old) (htype : d.type = SANE_TYPE_STRING)
    (hlp : ∀ b ∈ lp, b ≠ 0) (hclear : ValueClear fix d lp size) :
    ParsesClear fix d old lp size := by
  obtain ⟨hpos, hrange, hlist⟩ := hd.string htype
  have hroom := hd.room
  have hconv : wordOf fix d.type = none := by
    rw [htype]
    rfl
  have hcases : ∀ {value : List SaneByte}, 0 ∈ value →
      saneiCheckValue d value = .ok .good ∨ saneiCheckValue d value = .ok .inval :=
    checkString_cases hd.proper htype hrange hlist
  rw [ValueClear, hconv] at hclear
  dsimp only at hclear
  rw [if_pos htype] at hclear
  by_cases hword : HasWord lp
  · rw [if_pos hword] at hclear
    have hgiven : givenValue fix d lp = (saneiConfigGetString lp).1.map (fitString d) := by
      rw [givenValue, hconv]
      dsimp only
      rw [if_pos htype, if_pos hword]
    have hparse : parseOption fix d lp size =
        match (saneiConfigGetString lp).1 with
        | none => .ok none
        | some string =>
          if d.size.toInt < string.length + 1 then
            if 1 ≤ d.size.toInt then
              .ok (some ((string ++ [0]).set (d.size.toInt - 1).toNat 0, d.size.toInt - 1))
            else .error .outOfBounds
          else .ok (some (string ++ [0], string.length + 1)) := by
      rw [parseOption, hconv]
      exact if_pos htype
    have hsub := (getString_subset lp).1
    cases hstring : (saneiConfigGetString lp).1 with
    | none =>
      rw [hstring] at hparse hgiven
      exact .inl ⟨hparse, hgiven⟩
    | some string =>
      have hnonzero : ∀ b ∈ string, b ≠ 0 := fun b hb => hlp b (hsub string hstring hb)
      have hclear := hclear string hstring
      rw [hstring] at hparse hgiven
      dsimp only [Option.map_some] at hparse hgiven
      by_cases hlong : d.size.toInt < string.length + 1
      · rw [if_pos hlong, if_pos (by omega)] at hparse
        have hrefused := hclear.resolve_left (by omega)
        have hcut : (d.size.toInt - 1).toNat < (string ++ [0]).length := by
          rw [List.length_append, List.length_singleton]
          omega
        have hset : (string ++ [0]).set (d.size.toInt - 1).toNat 0 =
            string.take (d.size.toInt.toNat - 1) ++
              0 :: (string ++ [0]).drop ((d.size.toInt - 1).toNat + 1) := by
          have hindex : (d.size.toInt - 1).toNat = d.size.toInt.toNat - 1 := by omega
          rw [List.set_eq_take_append_cons_drop, if_pos hcut, hindex,
            List.take_append_of_le_length (by omega)]
        have hprefix : ∀ b ∈ string.take (d.size.toInt.toNat - 1), b ≠ 0 := fun b hb =>
          hnonzero b (List.mem_of_mem_take hb)
        have hsame : saneiCheckValue d ((string ++ [0]).set (d.size.toInt - 1).toNat 0) =
            saneiCheckValue d (fitString d string) := by
          refine checkString_congr hd.proper htype hrange hlist ?_ ?_ ?_
          · rw [hset]
            simp
          · rw [fitString]
            simp
          · rw [hset, fitString, cString_append hprefix, cString_append hprefix]
        have hfit : 0 ∈ fitString d string := by
          rw [fitString]
          simp
        refine .inr ⟨_, _, hparse, .inr ⟨?_, ?_⟩⟩
        · rw [hsame]
          exact (hcases hfit).resolve_left hrefused
        · intro v hv
          rw [hgiven] at hv
          cases hv
          exact hrefused
      · rw [if_neg hlong] at hparse
        have htake : fitString d string = string ++ [0] := by
          rw [fitString, List.take_of_length_le (by omega)]
        rw [htake] at hgiven
        refine .inr ⟨_, _, hparse, .inl ⟨_, hgiven, ?_, List.take_length, Nat.le_refl _, ?_, rfl,
          hcases (by simp)⟩⟩
        · rw [List.length_append]
          rfl
        · rw [List.length_append, List.length_singleton]
          omega
  · rw [if_neg hword] at hclear
    have hgiven : givenValue fix d lp = none := by
      rw [givenValue, hconv]
      dsimp only
      rw [if_pos htype, if_neg hword]
    have hparse : parseOption fix d lp size = .ok (some ([0], 1)) := by
      rw [parseOption, hconv]
      dsimp only
      rw [if_pos htype, getString_of_not_hasWord hword]
      exact if_neg (by simp only [List.length_nil]; omega)
    refine .inr ⟨_, _, hparse, .inr ⟨(hcases (by simp)).resolve_left hclear, ?_⟩⟩
    intro v hv
    rw [hgiven] at hv
    cases hv

/-- The code gets the value that the line gives, or refuses it as the line deserves. -/
theorem parseOption_clear (hd : OptionProper d old) (hlp : ∀ b ∈ lp, b ≠ 0)
    (hclear : ValueClear fix d lp size) : ParsesClear fix d old lp size := by
  cases hconv : wordOf fix d.type with
  | some conv => exact parseWords_clear hd hconv hclear
  | none =>
    by_cases htype : d.type = SANE_TYPE_STRING
    · exact parseString_clear hd htype hlp hclear
    · have hother : d.type = SANE_TYPE_BUTTON ∨ d.type = SANE_TYPE_GROUP := by
        unfold wordOf at hconv
        split_ifs at hconv with h₁ h₂ h₃
        have hle := hd.type
        rw [BitVec.toNat_eq] at h₁ h₂ h₃ htype
        rw [BitVec.toNat_eq, BitVec.toNat_eq]
        change ¬ d.type.toNat = 1 at h₁
        change ¬ d.type.toNat = 0 at h₂
        change ¬ d.type.toNat = 2 at h₃
        change ¬ d.type.toNat = 3 at htype
        change d.type.toNat = 4 ∨ d.type.toNat = 5
        omega
      have hnone := hd.other hother
      have hcheck : saneiCheckValue d [] = .ok .good := by
        have hbool : ¬ (d.constraintType = SANE_CONSTRAINT_NONE ∧ d.type = SANE_TYPE_BOOL) := by
          rintro ⟨-, h⟩
          rw [h] at hother
          exact absurd hother (by decide)
        rw [saneiCheckValue, hnone, if_neg (by decide), if_neg (by decide), if_neg (by decide)]
        rw [hnone] at hbool
        exact if_neg hbool
      rw [ValueClear, hconv] at hclear
      dsimp only at hclear
      rw [if_neg htype] at hclear
      subst hclear
      refine .inr ⟨[], 0, ?_, .inl ⟨[], ?_, rfl, rfl, Nat.le_refl _, Nat.zero_le _, rfl,
        .inl hcheck⟩⟩
      · rw [parseOption, hconv]
        exact if_neg htype
      · rw [givenValue, hconv]
        exact if_neg htype

end SaneBackends.SaneiConfig
