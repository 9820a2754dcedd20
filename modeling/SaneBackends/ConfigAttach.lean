import SaneBackends.ConfigMeaning

/-!
# A whole configuration file

`sanei_configure_attach` of `sanei/sanei_config.c`: the loop over the lines of a file.  What it
does for a file is what the lines mean, one after the other up to the first one that is not in
order, as long as the lines are clear and fit in the buffer.
-/

namespace SaneBackends.SaneiConfig

open FaultState Overwrite

variable {fix : CStr → SaneWord} {ds : List SaneOptionDescriptor}

/-! ### The loop -/

def PATH_MAX : Nat := 4096

/-- The loop reading the configuration file.  `fuel` is more than the number of lines. -/
def attachLoop (fix : CStr → SaneWord) (ds : List SaneOptionDescriptor) :
    Nat → List SaneByte → List SaneByte → SaneStatus → Progress →
      Except Fault (SaneStatus × Progress)
  | 0, _, _, _, _ => .error .outOfBounds
  | fuel + 1, line, fp, status, s => do
    match ← saneiConfigRead line fp with
    | none => return (status, s)
    | some (line, fp) =>
      if status ≠ .good then return (status, s)
      else
        match ← processLine fix ds (cString line) s with
        | (.leave, s) => return (.inval, s)
        | (.goOn status, s) => attachLoop fix ds fuel line fp status s

/-- `sanei_configure_attach`: the descriptors and values of the configuration, the array `line`
    as it happens to be, and the file if it can be opened. -/
def saneiConfigureAttach (fix : CStr → SaneWord) (ds : List SaneOptionDescriptor)
    (values : List (List SaneByte)) (line : List SaneByte) (file : Option (List SaneByte)) :
    Except Fault (SaneStatus × Progress) :=
  match file with
  | none => .ok (.accessDenied, ⟨values, 0, []⟩)
  | some fp => attachLoop fix ds (fp.length + 1) line fp .good ⟨values, 0, []⟩

/-! ### The meaning of a file -/

/-- The lines of a file as `fgets` delivers them, `n` bytes at most. -/
def rawLines (n : Nat) : Nat → List SaneByte → List (List SaneByte)
  | 0, _ => []
  | fuel + 1, fp =>
    if fp = [] then []
    else lineOf n fp :: rawLines n fuel (fp.drop (lineOf n fp).length)

def fileLines (fp : List SaneByte) : List (List SaneByte) :=
  rawLines (PATH_MAX - 1) fp.length fp

/-- What should be done for the lines, up to the first one that is not in order. -/
def fileMeaning (fix : CStr → SaneWord) (ds : List SaneOptionDescriptor) :
    List (List SaneByte) → SaneStatus × List Event
  | [] => (.good, [])
  | raw :: raws =>
    let m := lineMeaning fix ds (strip (textOf raw))
    if m.1 = .good then ((fileMeaning fix ds raws).1, m.2 ++ (fileMeaning fix ds raws).2)
    else m

/-- Each option has a proper descriptor and room for its value. -/
def ConfigProper (ds : List SaneOptionDescriptor) (values : List (List SaneByte)) : Prop :=
  ∀ (i : Nat) d, ds[i]? = some d → ∃ old, values[i]? = some old ∧ OptionProper d old

/-- The line can be stripped within the buffer. -/
def Readable (raw : List SaneByte) : Prop :=
  2 * leading (textOf raw) + (strip (textOf raw)).length ≤ PATH_MAX

/-- A word of the value lacks its final quote, or is no boolean: the function returns at once. -/
def ReturnsAtOnce (fix : CStr → SaneWord) (ds : List SaneOptionDescriptor) (line : CStr) : Prop :=
  ∃ name i d, (optionName line).1 = some name ∧ optionNamed name ds 0 = some (i, d) ∧
    parseOption fix d (optionName line).2 0 = .ok none

/-- `size` after something has been done. -/
def sizeAfter (size : Int) : List Event → Int
  | [.store _ value] => value.length
  | _ => size

/-- Every line that is read fits in the buffer and is clear.  One more line is read behind a value
    that the check refuses. -/
def FileClear (fix : CStr → SaneWord) (ds : List SaneOptionDescriptor) :
    List (List SaneByte) → Int → Prop
  | [], _ => True
  | raw :: raws, size =>
    Readable raw ∧ LineClear fix ds (strip (textOf raw)) size ∧
      if (lineMeaning fix ds (strip (textOf raw))).1 = .good then
        FileClear fix ds raws (sizeAfter size (lineMeaning fix ds (strip (textOf raw))).2)
      else ReturnsAtOnce fix ds (strip (textOf raw)) ∨
        ∀ next, raws.head? = some next → Readable next

/-! ### One line -/

/-- What the code does for a line is what the line means. -/
structure Follows (s s' : Progress) (e : LineEnd) (m : SaneStatus × List Event) : Prop where
  events : s'.events = s.events ++ m.2
  values : s'.values = m.2.foldl applyEvent s.values
  size : m.1 = .good → s'.size = sizeAfter s.size m.2
  status : e = .goOn m.1 ∨ e = .leave ∧ m.1 = .inval

variable {s : Progress} {line : CStr} {token : Option CStr × CStr}

theorem parseOption_none {d : SaneOptionDescriptor} {lp : CStr} {size : Int}
    (h : parseOption fix d lp 0 = .ok none) : parseOption fix d lp size = .ok none := by
  rw [parseOption] at h ⊢
  cases hconv : wordOf fix d.type with
  | some conv =>
    rw [hconv] at h
    exact h
  | none =>
    rw [hconv] at h
    dsimp only at h ⊢
    by_cases htype : d.type = SANE_TYPE_STRING
    · rw [if_pos htype] at h ⊢
      exact h
    · rw [if_neg htype] at h
      cases h

theorem configProper_names (hproper : ConfigProper ds s.values) :
    ∀ d ∈ ds, ∃ bs, d.name = .block bs ∧ 0 ∈ bs := by
  intro d hd
  obtain ⟨i, hi⟩ := List.getElem?_of_mem hd
  obtain ⟨old, -, hold⟩ := hproper i d hi
  exact hold.name

/-- The value is stored. -/
theorem memcpyValue_eq {values : List (List SaneByte)} {i : Nat} {old value v : List SaneByte}
    (hold : values[i]? = some old) (htake : value.take v.length = v)
    (hle : v.length ≤ value.length) (hroom : v.length ≤ old.length) :
    memcpyValue values i value v.length = .ok (applyEvent values (.store i v)) := by
  have hi : i < values.length := (List.getElem?_eq_some_iff.mp hold).1
  have hcell : cellAt values i = .ok old := cellAt_eq_ok.mpr hold
  rw [memcpyValue, hcell]
  simp only [bind, Except.bind]
  rw [if_pos (by omega), Int.toNat_natCast, htake, setCell_of_lt hi, applyEvent, hold]

section
variable {name lp : CStr} {i : Nat} {d : SaneOptionDescriptor}

theorem tokenMeaning_named (hnamed : optionNamed name ds 0 = some (i, d)) :
    tokenMeaning fix ds line (some name, lp) =
      match givenValue fix d lp with
      | none => (.inval, [])
      | some value =>
        if saneiCheckValue d value = .ok .good then (.good, [.store i value])
        else (.inval, []) := by
  cases hgiven : givenValue fix d lp with
  | none => simp only [tokenMeaning, Option.bind_some, hnamed, hgiven]
  | some value => simp only [tokenMeaning, Option.bind_some, hnamed, hgiven]

/-- A value that is missing or does not fit. -/
theorem tokenMeaning_refused (hnamed : optionNamed name ds 0 = some (i, d))
    (hnothing : ∀ v, givenValue fix d lp = some v → saneiCheckValue d v ≠ .ok .good) :
    tokenMeaning fix ds line (some name, lp) = (.inval, []) := by
  rw [tokenMeaning_named hnamed]
  cases hv : givenValue fix d lp with
  | none => rfl
  | some v => exact if_neg (hnothing v hv)

theorem matchToken_named (hfind : findOption (some name) ds 0 = .ok (some (i, d))) :
    matchToken fix ds line (some name, lp) s = (do
      match ← parseOption fix d lp s.size with
      | none => return (.leave, s)
      | some (value, size) =>
        let (status, s) ← checkAndStore d i value size s
        return (.goOn status, s)) := by
  rw [matchToken, hfind]
  rfl

end

/-- A token and the rest of the line. -/
theorem matchToken_follows (hproper : ConfigProper ds s.values)
    (hname : ∀ name, token.1 = some name → ∀ b ∈ name, b ≠ 0) (hrest : ∀ b ∈ token.2, b ≠ 0)
    (hclear : TokenClear fix ds token s.size) :
    ∃ e s', matchToken fix ds line token s = .ok (e, s') ∧
      Follows s s' e (tokenMeaning fix ds line token) ∧
      (e = .leave ∨ ¬ ∃ name i d, token.1 = some name ∧ optionNamed name ds 0 = some (i, d) ∧
        parseOption fix d token.2 0 = .ok none) := by
  obtain ⟨name?, lp⟩ := token
  cases name? with
  | none =>
    obtain rfl : ds = [] := hclear
    refine ⟨.goOn .good, _, rfl, ⟨rfl, rfl, fun _ => rfl, .inl rfl⟩, .inr ?_⟩
    rintro ⟨name, i, d, h, -⟩
    cases h
  | some name =>
    have hfind := findOption_eq (hname name rfl) (configProper_names hproper) 0
    cases hnamed : optionNamed name ds 0 with
    | none =>
      rw [hnamed] at hfind
      have hmeaning : tokenMeaning fix ds line (some name, lp) = (.good, [.attach line]) := by
        simp [tokenMeaning, hnamed]
      rw [hmeaning]
      refine ⟨.goOn .good, { s with events := s.events ++ [.attach line] }, ?_,
        ⟨rfl, rfl, fun _ => rfl, .inl rfl⟩, .inr ?_⟩
      · rw [matchToken, hfind]
        rfl
      · rintro ⟨name', i, d, h, h', -⟩
        cases h
        rw [hnamed] at h'
        cases h'
    | some p =>
      obtain ⟨i, d⟩ := p
      rw [hnamed] at hfind
      obtain ⟨j, hij, hj⟩ := optionNamed_spec hnamed
      obtain rfl : i = j := by omega
      obtain ⟨old, hold, hd⟩ := hproper i d hj
      rw [matchToken_named hfind]
      rcases parseOption_clear hd hrest (hclear i d hnamed) with
        ⟨hparse, hgiven⟩ | ⟨value, size, hparse, hvalue⟩
      · rw [tokenMeaning_named hnamed, hparse, hgiven]
        refine ⟨.leave, s, rfl, ⟨(List.append_nil _).symm, rfl, ?_, .inr ⟨rfl, rfl⟩⟩, .inl rfl⟩
        intro h
        cases h
      · have hgoes : ¬ ∃ name' i' d', (some name, lp).1 = some name' ∧
            optionNamed name' ds 0 = some (i', d') ∧
              parseOption fix d' (some name, lp).2 0 = .ok none := by
          rintro ⟨name', i', d', h, h', hnone⟩
          cases h
          rw [hnamed] at h'
          cases h'
          rw [parseOption_none hnone] at hparse
          cases hparse
        rw [hparse]
        simp only [bind, Except.bind, checkAndStore]
        rcases hvalue with ⟨v, hgiven, hsize, htake, hle, hroom, hsame, hcases⟩ |
          ⟨hrefused, hnothing⟩
        · subst hsize
          rw [tokenMeaning_named hnamed, hgiven, hsame]
          dsimp only
          rcases hcases with hgood | hinval
          · rw [hgood, if_pos rfl]
            simp only [if_true]
            rw [memcpyValue_eq hold htake hle hroom, Int.toNat_natCast, htake]
            exact ⟨_, _, rfl, ⟨rfl, rfl, fun _ => rfl, .inl rfl⟩, .inr hgoes⟩
          · rw [hinval, if_neg (by decide)]
            refine ⟨_, _, rfl, ⟨(List.append_nil _).symm, rfl, ?_, .inl rfl⟩, .inr hgoes⟩
            intro h
            cases h
        · rw [tokenMeaning_refused hnamed hnothing, hrefused]
          refine ⟨_, _, rfl, ⟨(List.append_nil _).symm, rfl, ?_, .inl rfl⟩, .inr hgoes⟩
          intro h
          cases h

theorem processLine_option (hskip : saneiConfigSkipWhitespace line = line)
    (hlast : line.getLast? ≠ some 0x0a) (hblank : ¬ (line = [] ∨ line.head? = some 0x23)) :
    processLine fix ds line s =
      match saneiConfigGetString line with
      | (none, _) => .error .nullPointer
      | (some token, lp) =>
        if optionWord <+: token then
          matchToken fix ds line (saneiConfigGetString lp) s
        else matchToken fix ds line (some token, lp) s := by
  obtain ⟨hne, hcomment⟩ := not_or.mp hblank
  rcases hget : saneiConfigGetString line with ⟨token, lp⟩
  cases token with
  | none => simp only [processLine, hskip, hne, hcomment, hlast, hget, if_false]
  | some token => simp only [processLine, hskip, hne, hcomment, hlast, hget, if_false]

/-- A whole line. -/
theorem processLine_follows (hproper : ConfigProper ds s.values)
    (hskip : saneiConfigSkipWhitespace line = line) (hlast : line.getLast? ≠ some 0x0a)
    (hzero : ∀ b ∈ line, b ≠ 0) (hclear : LineClear fix ds line s.size) :
    ∃ e s', processLine fix ds line s = .ok (e, s') ∧
      Follows s s' e (lineMeaning fix ds line) ∧
      ((lineMeaning fix ds line).1 = .good ∨ e = .leave ∨ ¬ ReturnsAtOnce fix ds line) := by
  by_cases hblank : line = [] ∨ line.head? = some 0x23
  · have hmeaning : lineMeaning fix ds line = (.good, []) := if_pos hblank
    rw [hmeaning]
    refine ⟨.goOn .good, s, ?_, ⟨(List.append_nil _).symm, rfl, fun _ => rfl, .inl rfl⟩, .inl rfl⟩
    rw [processLine, hskip]
    split_ifs with h₁ h₂
    · rfl
    · rfl
    · exact absurd hblank (not_or.mpr ⟨h₁, h₂⟩)
  · obtain ⟨hne, hcomment⟩ := not_or.mp hblank
    have hmeaning : lineMeaning fix ds line = tokenMeaning fix ds line (optionName line) :=
      if_neg hblank
    have hclear := (hclear.resolve_left hne).resolve_left hcomment
    have hsub := getString_subset line
    rw [hmeaning, processLine_option hskip hlast hblank]
    rcases hfirst : saneiConfigGetString line with ⟨_ | first, lp⟩
    · rw [hfirst] at hclear
      exact absurd hclear id
    · rw [hfirst] at hclear hsub
      dsimp only at hclear hsub ⊢
      have hlp : ∀ b ∈ lp, b ≠ 0 := fun b hb => hzero b (hsub.2 hb)
      have hfirst' : ∀ b ∈ first, b ≠ 0 := fun b hb => hzero b (hsub.1 first rfl hb)
      have hname : optionName line =
          if first = optionWord then saneiConfigGetString lp else (some first, lp) := by
        rw [optionName, hfirst]
      have hnext := getString_subset lp
      have hnextName : ∀ name, (saneiConfigGetString lp).1 = some name → ∀ b ∈ name, b ≠ 0 :=
        fun name hn b hb => hlp b (hnext.1 name hn hb)
      have hnextRest : ∀ b ∈ (saneiConfigGetString lp).2, b ≠ 0 := fun b hb => hlp b (hnext.2 hb)
      by_cases hword : first = optionWord
      · rw [if_pos hword] at hclear hname
        have hprefix : optionWord <+: first := by rw [hword]
        rw [if_pos hprefix, ReturnsAtOnce, hname]
        obtain ⟨e, s', hmatch, hfollows, hleave⟩ :=
          @matchToken_follows fix ds s line _ hproper hnextName hnextRest hclear
        exact ⟨e, s', hmatch, hfollows, .inr hleave⟩
      · rw [if_neg hword] at hclear hname
        by_cases hprefix : optionWord <+: first
        · -- neither reading of the line names an option
          rw [if_pos hprefix] at hclear
          obtain ⟨hnone, hother⟩ := hclear
          have hattach : tokenMeaning fix ds line (some first, lp) =
              (.good, [.attach line]) := by simp [tokenMeaning, hnone]
          have hsame : tokenMeaning fix ds line (saneiConfigGetString lp) =
              (.good, [.attach line]) := by
            cases hn : (saneiConfigGetString lp).1 with
            | none => simp [tokenMeaning, hn]
            | some next =>
              rw [hn] at hother
              simp [tokenMeaning, hn, show optionNamed next ds 0 = none from hother]
          have hclear' : TokenClear fix ds (saneiConfigGetString lp) s.size := by
            rw [TokenClear]
            cases hn : (saneiConfigGetString lp).1 with
            | none =>
              rw [hn] at hother
              exact hother
            | some next =>
              rw [hn] at hother
              intro i d h
              rw [show optionNamed next ds 0 = none from hother] at h
              cases h
          rw [if_pos hprefix, hname, hattach]
          obtain ⟨e, s', hmatch, hfollows, -⟩ :=
            @matchToken_follows fix ds s line _ hproper hnextName hnextRest hclear'
          rw [hsame] at hfollows
          exact ⟨e, s', hmatch, hfollows, .inl rfl⟩
        · rw [if_neg hprefix] at hclear ⊢
          rw [ReturnsAtOnce, hname]
          obtain ⟨e, s', hmatch, hfollows, hleave⟩ :=
            @matchToken_follows fix ds s line (some first, lp) hproper
              (fun name hn => by cases hn; exact hfirst') hlp hclear
          exact ⟨e, s', hmatch, hfollows, .inr hleave⟩

/-! ### Lines in the buffer -/

theorem skip_strip (text : CStr) : saneiConfigSkipWhitespace (strip text) = strip text :=
  List.dropWhile_idempotent _ _

theorem strip_subset (text : CStr) : strip text ⊆ text :=
  List.Subset.trans (List.dropWhile_suffix _).subset (trimmed_begins text).subset

theorem getLast_strip (text : CStr) : (strip text).getLast? ≠ some 0x0a := by
  intro h
  have hne : strip text ≠ [] := by
    intro hnil
    rw [hnil] at h
    cases h
  have hsuffix : strip text <:+ trimmed text := List.dropWhile_suffix _
  have htrimmed : trimmed text ≠ [] := fun hnil => hne (List.suffix_nil.mp (hnil ▸ hsuffix))
  have hlast : (trimmed text).getLast htrimmed = 0x0a := by
    rw [← hsuffix.getLast hne, ← Option.some_inj, ← List.getLast?_eq_some_getLast, h]
  have hnot : ¬ isSpace ((trimmed text).getLast htrimmed) = true :=
    List.rdropWhile_last_not _ _ htrimmed
  rw [hlast] at hnot
  exact hnot rfl

theorem OptionProper.mono {d : SaneOptionDescriptor} {old old' : List SaneByte}
    (h : OptionProper d old) (hle : old.length ≤ old'.length) : OptionProper d old' :=
  ⟨h.name, h.proper, h.room.trans (by exact_mod_cast hle), h.words, h.string, h.other, h.type⟩

/-- Storing values leaves the room for them. -/
theorem configProper_applyEvents {values : List (List SaneByte)} (hproper : ConfigProper ds values)
    (evs : List Event) : ConfigProper ds (evs.foldl applyEvent values) := by
  induction evs generalizing values with
  | nil => exact hproper
  | cons ev evs ih =>
    refine ih ?_
    cases ev with
    | attach devname => exact hproper
    | store i value =>
      intro j d hj
      obtain ⟨old, hold, hd⟩ := hproper j d hj
      rw [applyEvent]
      cases hcell : values[i]? with
      | none => exact ⟨old, hold, hd⟩
      | some cell =>
        by_cases hij : i = j
        · subst hij
          rw [hcell] at hold
          cases hold
          refine ⟨overwrite old 0 value, ?_, hd.mono ?_⟩
          · dsimp only
            rw [List.getElem?_set_self (List.getElem?_eq_some_iff.mp hcell).1]
          · simp only [overwrite, List.length_append, List.length_take, List.length_drop]
            omega
        · exact ⟨old, by dsimp only; rw [List.getElem?_set_ne hij, hold], hd⟩

/-! ### The whole file -/

theorem lineOf_ne_nil {n : Nat} {fp : List SaneByte} (hn : 0 < n) (hfp : fp ≠ []) :
    lineOf n fp ≠ [] := by
  obtain ⟨b, bs, rfl⟩ := List.exists_cons_of_ne_nil hfp
  obtain ⟨n, rfl⟩ : ∃ m, n = m + 1 := ⟨n - 1, by omega⟩
  rw [lineOf]
  split_ifs
  · exact List.cons_ne_nil _ _
  · exact List.cons_ne_nil _ _

/-- The lines do not depend on the fuel. -/
theorem rawLines_fuel {n fuel fuel' : Nat} {fp : List SaneByte} (hn : 0 < n)
    (h : fp.length ≤ fuel) (h' : fp.length ≤ fuel') :
    rawLines n fuel fp = rawLines n fuel' fp := by
  induction fuel generalizing fuel' fp with
  | zero =>
    obtain rfl : fp = [] := List.length_eq_zero_iff.mp (by omega)
    cases fuel' with
    | zero => rfl
    | succ fuel' => rfl
  | succ fuel ih =>
    by_cases hfp : fp = []
    · subst hfp
      cases fuel' with
      | zero => rfl
      | succ fuel' => rfl
    · have hpos := List.length_pos_iff.mpr hfp
      obtain ⟨fuel', rfl⟩ : ∃ f, fuel' = f + 1 := ⟨fuel' - 1, by omega⟩
      have hline := List.length_pos_iff.mpr (lineOf_ne_nil hn hfp)
      rw [rawLines, rawLines, if_neg hfp, if_neg hfp]
      congr 1
      apply ih
      · rw [List.length_drop]
        omega
      · rw [List.length_drop]
        omega

/-- The first line and the others. -/
theorem rawLines_eq {fp : List SaneByte} (hfp : fp ≠ []) :
    rawLines (PATH_MAX - 1) fp.length fp =
      lineOf (PATH_MAX - 1) fp ::
        rawLines (PATH_MAX - 1) (fp.drop (lineOf (PATH_MAX - 1) fp).length).length
          (fp.drop (lineOf (PATH_MAX - 1) fp).length) := by
  have hpos := List.length_pos_iff.mpr hfp
  have hbuf : 0 < PATH_MAX - 1 := by decide
  have hline := List.length_pos_iff.mpr (lineOf_ne_nil hbuf hfp)
  obtain ⟨n, hn⟩ : ∃ n, fp.length = n + 1 := ⟨fp.length - 1, by omega⟩
  rw [hn, rawLines, if_neg hfp]
  congr 1
  apply rawLines_fuel hbuf
  · rw [List.length_drop]
    omega
  · exact Nat.le_refl _

/-- Reading a line that fits. -/
theorem saneiConfigRead_ok {buf fp : List SaneByte} (hbuf : buf.length = PATH_MAX)
    (hfp : fp ≠ []) (hread : Readable (lineOf (PATH_MAX - 1) fp)) :
    ∃ buf', saneiConfigRead buf fp =
        .ok (some (buf', fp.drop (lineOf (PATH_MAX - 1) fp).length)) ∧
      buf'.length = PATH_MAX ∧ cString buf' = strip (textOf (lineOf (PATH_MAX - 1) fp)) := by
  have hne : buf ≠ [] := by
    rintro rfl
    cases hbuf
  have hline : lineOf (buf.length - 1) fp = lineOf (PATH_MAX - 1) fp := by rw [hbuf]
  obtain ⟨buf', hrun, hval⟩ :=
    (saneiConfigRead_strips hne hfp hline).mpr (by rw [hbuf]; exact hread)
  exact ⟨buf', hrun, (length_saneiConfigRead hne hrun).trans hbuf, hval⟩

/-- The loop does what the lines that are left mean. -/
theorem attachLoop_follows {fuel : Nat} {buf fp : List SaneByte} (hbuf : buf.length = PATH_MAX)
    (hfuel : fp.length < fuel) (hproper : ConfigProper ds s.values)
    (hclear : FileClear fix ds (rawLines (PATH_MAX - 1) fp.length fp) s.size) :
    ∃ s', attachLoop fix ds fuel buf fp .good s =
        .ok ((fileMeaning fix ds (rawLines (PATH_MAX - 1) fp.length fp)).1, s') ∧
      s'.events = s.events ++ (fileMeaning fix ds (rawLines (PATH_MAX - 1) fp.length fp)).2 ∧
      s'.values = (fileMeaning fix ds (rawLines (PATH_MAX - 1) fp.length fp)).2.foldl applyEvent
        s.values := by
  induction fuel generalizing buf fp s with
  | zero => omega
  | succ fuel ih =>
    by_cases hfp : fp = []
    · subst hfp
      exact ⟨s, rfl, (List.append_nil _).symm, rfl⟩
    · have hnonempty := List.length_pos_iff.mpr hfp
      have hlines := rawLines_eq hfp
      have hpos := List.length_pos_iff.mpr (lineOf_ne_nil (n := PATH_MAX - 1) (by decide) hfp)
      rw [hlines] at hclear ⊢
      obtain ⟨hread, hline, hrest⟩ := hclear
      obtain ⟨buf', hrun, hbuf', htext⟩ := saneiConfigRead_ok hbuf hfp hread
      have hzero : ∀ b ∈ strip (textOf (lineOf (PATH_MAX - 1) fp)), b ≠ 0 := fun b hb =>
        ne_zero_of_mem_text (strip_subset _ hb)
      obtain ⟨e, s', hstep, hfollows, hleave⟩ := processLine_follows hproper (skip_strip _)
        (getLast_strip _) hzero hline
      have hstart : attachLoop fix ds (fuel + 1) buf fp .good s = (do
          match ← processLine fix ds (strip (textOf (lineOf (PATH_MAX - 1) fp))) s with
          | (.leave, s) => return (.inval, s)
          | (.goOn status, s) =>
            attachLoop fix ds fuel buf' (fp.drop (lineOf (PATH_MAX - 1) fp).length) status s) := by
        rw [attachLoop, hrun]
        simp only [bind, Except.bind, htext]
        rfl
      rw [hstart, hstep, fileMeaning]
      by_cases hgood : (lineMeaning fix ds (strip (textOf (lineOf (PATH_MAX - 1) fp)))).1 = .good
      · rw [if_pos hgood] at hrest ⊢
        rw [← hfollows.size hgood] at hrest
        have hproper' : ConfigProper ds s'.values := by
          rw [hfollows.values]
          exact configProper_applyEvents hproper _
        have hshort : (fp.drop (lineOf (PATH_MAX - 1) fp).length).length < fuel := by
          rw [List.length_drop]
          omega
        obtain ⟨s'', hend, hevents, hvalues⟩ := ih hbuf' hshort hproper' hrest
        have hgoes : e = .goOn .good := by
          rcases hfollows.status with h | ⟨-, h⟩
          · rw [h, hgood]
          · rw [hgood] at h
            cases h
        subst hgoes
        refine ⟨s'', hend, ?_, ?_⟩
        · rw [hevents, hfollows.events, List.append_assoc]
        · rw [hvalues, hfollows.values, List.foldl_append]
      · rw [if_neg hgood] at hrest ⊢
        rcases hfollows.status with rfl | ⟨rfl, hinval⟩
        · -- one more line is read
          have hnot : ¬ ReturnsAtOnce fix ds (strip (textOf (lineOf (PATH_MAX - 1) fp))) :=
            (hleave.resolve_left hgood).resolve_left fun h => (nomatch h)
          have hnext := hrest.resolve_left hnot
          refine ⟨s', ?_, hfollows.events, hfollows.values⟩
          obtain ⟨fuel, rfl⟩ : ∃ f, fuel = f + 1 := ⟨fuel - 1, by omega⟩
          change attachLoop fix ds (fuel + 1) buf' _ _ s' = _
          by_cases hend : fp.drop (lineOf (PATH_MAX - 1) fp).length = []
          · rw [hend]
            rfl
          · rw [rawLines_eq hend] at hnext
            obtain ⟨buf'', hrun', -, -⟩ := saneiConfigRead_ok hbuf' hend (hnext _ rfl)
            simp only [attachLoop, hrun', bind, Except.bind]
            rw [if_pos hgood]
            rfl
        · exact ⟨s', by rw [hinval]; rfl, hfollows.events, hfollows.values⟩

/-- What is done for a file is what its lines mean. -/
theorem saneiConfigureAttach_follows {values : List (List SaneByte)} {line fp : List SaneByte}
    (hline : line.length = PATH_MAX) (hproper : ConfigProper ds values)
    (hclear : FileClear fix ds (fileLines fp) 0) :
    ∃ s, saneiConfigureAttach fix ds values line (some fp) =
        .ok ((fileMeaning fix ds (fileLines fp)).1, s) ∧
      s.events = (fileMeaning fix ds (fileLines fp)).2 ∧
      s.values = s.events.foldl applyEvent values := by
  obtain ⟨s, hrun, hevents, hvalues⟩ := @attachLoop_follows fix ds ⟨values, 0, []⟩ (fp.length + 1)
    line fp hline (Nat.lt_succ_self _) hproper hclear
  exact ⟨s, hrun, hevents, by rw [hvalues, hevents]; rfl⟩

/-- The lines of a file of short lines are its lines. -/
theorem fileLines_eq {lines : List (List SaneByte)}
    (h : ∀ l ∈ lines, 0x0a ∉ l ∧ l.length < PATH_MAX - 1) :
    fileLines (lines.flatMap (· ++ [0x0a])) = lines.map (· ++ [0x0a]) := by
  induction lines with
  | nil => rfl
  | cons l lines ih =>
    obtain ⟨hl, hlen⟩ := h l List.mem_cons_self
    have hne : (l :: lines).flatMap (· ++ [0x0a]) ≠ [] := by simp
    have hsplit : (l :: lines).flatMap (· ++ [0x0a]) =
        l ++ 0x0a :: lines.flatMap (· ++ [0x0a]) := by simp
    have hfirst : lineOf (PATH_MAX - 1) ((l :: lines).flatMap (· ++ [0x0a])) = l ++ [0x0a] := by
      rw [hsplit]
      exact lineOf_append _ (fun b hb heq => hl (heq ▸ hb)) hlen
    have hrest : ((l :: lines).flatMap (· ++ [0x0a])).drop (l ++ [0x0a]).length =
        lines.flatMap (· ++ [0x0a]) := by
      rw [List.flatMap_cons, List.drop_left]
    rw [fileLines, rawLines_eq hne, hfirst, hrest, List.map_cons]
    congr 1
    exact ih fun l' hl' => h l' (List.mem_cons_of_mem _ hl')

/-- A number option and a string option of four bytes. -/
def numberOption : SaneOptionDescriptor :=
  ⟨.block (ascii ['n'] ++ [0]), .null, .null, SANE_TYPE_INT, 0, 4, 0, SANE_CONSTRAINT_NONE, .null⟩

def textOption : SaneOptionDescriptor :=
  ⟨.block (ascii ['s'] ++ [0]), .null, .null, SANE_TYPE_STRING, 0, 4, 0, SANE_CONSTRAINT_NONE,
    .null⟩

theorem numberOption_proper : ConfigProper [numberOption] [hostBytes 0] := by
  have hd : OptionProper numberOption (hostBytes 0) :=
    { name := ⟨_, rfl, by decide⟩
      proper :=
        { range := fun h => absurd h (by decide)
          wordList := fun h => absurd h (by decide)
          stringList := fun h => absurd h (by decide)
          size := fun h => absurd h (by decide) }
      room := by decide
      words := fun _ => by decide
      string := fun h => absurd h (by decide)
      other := fun h => absurd h (by decide)
      type := by decide }
  intro i d h
  obtain ⟨hi, heq⟩ := List.getElem?_eq_some_iff.mp h
  obtain rfl : i = 0 := by simpa using hi
  subst heq
  exact ⟨hostBytes 0, rfl, hd⟩

theorem numberFile_clear :
    FileClear (fun _ => 0) [numberOption] (fileLines (ascii ['n', ' ', '5', '\n'])) 0 := by
  have hlines : fileLines (ascii ['n', ' ', '5', '\n']) = [ascii ['n', ' ', '5', '\n']] :=
    @fileLines_eq [ascii ['n', ' ', '5']] (by decide)
  have htext : strip (textOf (ascii ['n', ' ', '5', '\n'])) = ascii ['n', ' ', '5'] := by decide
  have hwords : saneiConfigGetString (ascii ['n', ' ', '5']) =
      (some (ascii ['n']), ascii [' ', '5']) := by decide
  have hmeaning : (lineMeaning (fun _ => 0) [numberOption] (ascii ['n', ' ', '5'])).1 = .good := by
    decide
  rw [hlines, FileClear, htext, if_pos hmeaning]
  refine ⟨by unfold Readable; decide, .inr (.inr ?_), trivial⟩
  rw [hwords]
  dsimp only
  rw [if_neg (by decide), if_neg (by decide)]
  intro i d h
  have hfound : optionNamed (ascii ['n']) [numberOption] 0 = some (0, numberOption) := by decide
  rw [hfound] at h
  cases h
  intro ws hws
  have hgiven : givenWords (fun string => some (BitVec.ofInt 32 ((strtol 0 string).getD 0)))
      (wordsOf numberOption) (ascii [' ', '5']) = some [5] := by decide
  rw [hgiven] at hws
  cases hws
  exact .inl rfl

/-- The number is stored. -/
theorem saneiConfigureAttach_number :
    ∃ s, saneiConfigureAttach (fun _ => 0) [numberOption] [hostBytes 0] (List.replicate PATH_MAX 0)
        (some (ascii ['n', ' ', '5', '\n'])) = .ok (.good, s) ∧
      s.events = [.store 0 (hostBytes 5)] ∧ s.values = [hostBytes 5] := by
  obtain ⟨s, hrun, hevents, hvalues⟩ :=
    saneiConfigureAttach_follows List.length_replicate numberOption_proper numberFile_clear
  have hmeaning : fileMeaning (fun _ => 0) [numberOption]
      (fileLines (ascii ['n', ' ', '5', '\n'])) = (.good, [.store 0 (hostBytes 5)]) := by
    decide +kernel
  rw [hmeaning] at hrun hevents
  rw [hevents] at hvalues
  exact ⟨s, hrun, hevents, hvalues⟩

/-- The status and what has been done. -/
def outcome (r : Except Fault (SaneStatus × Progress)) : Except Fault (SaneStatus × List Event) :=
  r.map fun p => (p.1, p.2.events)

/-- A missing quote is a null pointer; a number that is missing is stored as 0; and a string that
    is too long is stored without its NUL. -/
theorem saneiConfigureAttach_slips :
    outcome (saneiConfigureAttach (fun _ => 0) [] [] (List.replicate PATH_MAX 0)
        (some (ascii ['"', 'x', '\n']))) = .error .nullPointer ∧
      (outcome (saneiConfigureAttach (fun _ => 0) [numberOption] [hostBytes 0]
          (List.replicate PATH_MAX 0) (some (ascii ['n', '\n']))) =
            .ok (.good, [.store 0 (hostBytes 0)]) ∧
        fileMeaning (fun _ => 0) [numberOption] (fileLines (ascii ['n', '\n'])) =
          (.inval, [])) ∧
      outcome (saneiConfigureAttach (fun _ => 0) [textOption] [hostBytes 0]
          (List.replicate PATH_MAX 0) (some (ascii ['s', ' ', 'a', 'b', 'c', 'd', '\n']))) =
            .ok (.good, [.store 0 (ascii ['a', 'b', 'c'])]) ∧
        fileMeaning (fun _ => 0) [textOption]
          (fileLines (ascii ['s', ' ', 'a', 'b', 'c', 'd', '\n'])) =
            (.good, [.store 0 (ascii ['a', 'b', 'c'] ++ [0])]) := by
  decide +kernel

end SaneBackends.SaneiConfig
