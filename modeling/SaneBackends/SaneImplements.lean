import SaneBackends.WireArrays

/-!
# The wire functions of the SANE types implement their formats

Each function of `sanei_wire.c` for a structure of `sane.h`, run with the binary
codec, is the sequence of the functions for its fields, and so implements the
format that is the sequence of theirs.
-/

namespace SaneBackends

open FaultState WordBytes

variable {ver : Int}

/-! ### Enumerations -/

theorem direction_of_getBytes {n : Nat} {w w' : Wire} {bs : List SaneByte}
    (h : getBytes n w = .ok (bs, w')) : w'.direction = w.direction := by
  by_cases hfit : w.buffer.curr + n > w.buffer.size
  · simp only [getBytes, bind_run, get_run, ite_run, if_pos hfit, throw_run, reduceCtorEq] at h
  · rw [getBytes_run n w (not_lt.mp hfit)] at h
    cases h
    rfl

/-- Only decoding changes the value. -/
theorem binTransfer_value {α : Type} {n : Nat} {store : α → List SaneByte}
    {load : List SaneByte → α} {v a : α} {w w' : Wire}
    (h : binTransfer n store load v w = .ok (a, w')) (hdir : w'.direction ≠ .decode) : a = v := by
  obtain ⟨⟨⟩, w₁, hsp, h⟩ := bind_ok.mp h
  obtain ⟨s, w₂, hst, h⟩ := bind_ok.mp h
  by_cases hs : s ≠ 0
  · rw [if_pos hs] at h
    cases h
    rfl
  · rw [if_neg hs] at h
    obtain ⟨d, w₃, hd, h⟩ := bind_ok.mp h
    cases hst
    cases hd
    cases hd : w₁.direction with
    | encode =>
      rw [hd] at h
      obtain ⟨⟨⟩, w₄, -, h⟩ := bind_ok.mp h
      cases h
      rfl
    | decode =>
      rw [hd] at h
      obtain ⟨bs, w₄, hget, h⟩ := bind_ok.mp h
      cases h
      exact absurd ((direction_of_getBytes hget).trans hd) hdir
    | free =>
      rw [hd] at h
      cases h
      rfl

/-- The functions for enumerations transfer a word like any other. -/
theorem saneiWEnum_eq : saneiWEnum saneiCodecBin = binWWord := by
  funext v w
  change (do
    let word ← binWWord v
    if (← wireDirection) = .decode then return word else return v : WireM SaneWord) w = _
  rw [bind_run]
  cases hrun : binWWord v w with
  | error e => rfl
  | ok r =>
    obtain ⟨a, w'⟩ := r
    simp only [bind_run, wireDirection_run, ite_run, pure_run]
    by_cases hdir : w'.direction = .decode
    · rw [if_pos hdir]
    · rw [if_neg hdir, binTransfer_value hrun hdir]

/-! ### Structures without a choice -/

theorem saneiWRange_implements : Implements ver (saneiWRange saneiCodecBin) rangeFormat := by
  refine (binWWord_implements.pair (binWWord_implements.pair binWWord_implements)).map _ _
    fun v => ?_
  simp only [pairCodec, bind_assoc, pure_bind]
  rfl

theorem saneiWDevice_implements : Implements ver (saneiWDevice saneiCodecBin) deviceFormat := by
  refine (binWString_implements.pair (binWString_implements.pair
    (binWString_implements.pair binWString_implements))).map _ _ fun v => ?_
  simp only [pairCodec, bind_assoc, pure_bind]
  rfl

theorem saneiWParameters_implements :
    Implements ver (saneiWParameters saneiCodecBin) parametersFormat := by
  refine (binWWord_implements.pair (binWWord_implements.pair (binWWord_implements.pair
    (binWWord_implements.pair (binWWord_implements.pair binWWord_implements))))).map _ _
      fun v => ?_
  simp only [saneiWParameters, saneiWFrame, saneiWBool, saneiWEnum_eq, pairCodec, bind_assoc,
    pure_bind]
  rfl

/-! ### Constraints and option descriptors -/

/-- A length that is computed from the list in two of the directions. -/
theorem findsLength_of {α : Type} {find : Ptr (List α) → WireM SaneWord}
    {lenOf : Ptr (List α) → Option Nat} {compute : Ptr (List α) → WireM SaneWord}
    (hfind : ∀ p, find p = do
      match ← wireDirection with
      | .decode => uninitWord
      | _ => compute p)
    (h : ∀ p n w, lenOf p = some n → compute p w = .ok (BitVec.ofNat 32 n, w)) :
    FindsLength find lenOf where
  decode p w hdir := by
    rw [hfind, bind_of_ok (wireDirection_run w), hdir]
    rfl
  found p n w hn hdir := by
    rw [hfind, bind_of_ok (wireDirection_run w)]
    cases hw : w.direction with
    | decode => exact absurd hw hdir
    | encode => exact h p n w hn
    | free => exact h p n w hn

theorem wordListLen_findsLength : FindsLength wordListLen wordLenOf := by
  refine findsLength_of (fun p => rfl) fun p n w hn => ?_
  match p, hn with
  | .block (k :: ws), hn =>
    cases hn
    rw [BitVec.ofNat_toNat, BitVec.setWidth_eq]
    rfl

theorem stringListLen_findsLength : FindsLength stringListLen ptrLenOf := by
  refine findsLength_of (fun p => rfl) fun p n w hn => ?_
  cases p with
  | null => cases hn
  | wild => cases hn
  | block ss =>
    obtain ⟨k, hk, rfl⟩ := ptrLenOf_block_eq_some.mp hn
    rw [deref_bind, hk]
    rfl

theorem wordList_implements :
    Implements ver (countedCodec wordListLen binWWord) wordListFormat :=
  binWWord_implements.counted wordListLen_findsLength

theorem stringList_implements :
    Implements ver (countedCodec stringListLen binWString) stringListFormat :=
  binWString_implements.counted stringListLen_findsLength

theorem rangePtr_implements :
    Implements ver (saneiWPtr binPrims (saneiWRange saneiCodecBin)) rangeFormat.ptr :=
  saneiWRange_implements.ptr (by decide)

/-- The `switch` of `sanei_w_option_descriptor`, case by case. -/
theorem wConstraint_eq (type : SaneWord) (c : SaneConstraint) :
    wConstraint saneiCodecBin type c =
      if type = SANE_CONSTRAINT_RANGE then do
        let p ← saneiWPtr binPrims (saneiWRange saneiCodecBin) c.asRange
        return .ofRange p
      else if type = SANE_CONSTRAINT_WORD_LIST then do
        let p ← countedCodec wordListLen binWWord c.asWordList
        return .ofWordList p
      else if type = SANE_CONSTRAINT_STRING_LIST then do
        let p ← countedCodec stringListLen binWString c.asStringList
        return .ofStringList p
      else return c := by
  simp only [countedCodec, bind_assoc, pure_bind]
  rfl

theorem ofRange_asRange {c : SaneConstraint} {bs : List SaneByte}
    (h : rangeFormat.ptr.encoding c.asRange = some bs) : .ofRange c.asRange = c := by
  cases c <;> first | rfl | cases h

theorem ofWordList_asWordList {c : SaneConstraint} {bs : List SaneByte}
    (h : wordListFormat.encoding c.asWordList = some bs) : .ofWordList c.asWordList = c := by
  cases c <;> first | rfl | cases h

theorem ofStringList_asStringList {c : SaneConstraint} {bs : List SaneByte}
    (h : stringListFormat.encoding c.asStringList = some bs) :
    .ofStringList c.asStringList = c := by
  cases c <;> first | rfl | cases h

theorem rangeHeld_of_consistent {c : SaneConstraint}
    (h : rangeFormat.ptr.Consistent c.asRange) :
    rangeFormat.ptr.held c.asRange = constraintHeld c := by
  cases c <;> first | rfl | exact h.elim

theorem wordListHeld_of_consistent {c : SaneConstraint}
    (h : wordListFormat.Consistent c.asWordList) :
    wordListFormat.held c.asWordList = constraintHeld c := by
  obtain ⟨n, hn, -⟩ := h
  cases c <;> first | rfl | cases hn

theorem stringListHeld_of_consistent {c : SaneConstraint}
    (h : stringListFormat.Consistent c.asStringList) :
    stringListFormat.held c.asStringList = constraintHeld c := by
  obtain ⟨n, hn, -⟩ := h
  cases c <;> first | rfl | cases hn

theorem wConstraint_implements (type : SaneWord) :
    Implements ver (wConstraint saneiCodecBin type) (constraintFormat type) where
  reads prior m hm := by
    rw [wConstraint_eq]
    cases m with
    | none =>
      obtain ⟨h₁, h₂, h₃⟩ := hm
      rw [if_neg h₁, if_neg h₂, if_neg h₃]
      exact .pure prior
    | range r =>
      rw [if_pos hm.1]
      refine ((rangePtr_implements.reads prior.asRange r hm.2).map _).cast rfl ?_ rfl
      cases r <;> rfl
    | wordList ws =>
      obtain ⟨rfl, hws⟩ := hm
      rw [if_neg (by decide), if_pos rfl]
      exact (wordList_implements.reads prior.asWordList ws hws).map _
    | stringList ss =>
      obtain ⟨rfl, hss⟩ := hm
      rw [if_neg (by decide), if_neg (by decide), if_pos rfl]
      exact (stringList_implements.reads prior.asStringList ss hss).map _
  accepts prior := by
    rw [wConstraint_eq]
    rcases constraintType_cases type with rfl | rfl | rfl | ⟨h₁, h₂, h₃⟩
    · rw [if_pos rfl]
      refine (rangePtr_implements.accepts prior.asRange).map _ ?_
      rintro bs δ p ⟨r, hr, rfl, rfl, rfl⟩
      refine ⟨.range r, ⟨rfl, hr⟩, rfl, ?_, rfl⟩
      cases r <;> rfl
    · rw [if_neg (by decide), if_pos rfl]
      refine (wordList_implements.accepts prior.asWordList).map _ ?_
      rintro bs δ p ⟨ws, hws, rfl, rfl, rfl⟩
      exact ⟨.wordList ws, ⟨rfl, hws⟩, rfl, rfl, rfl⟩
    · rw [if_neg (by decide), if_neg (by decide), if_pos rfl]
      refine (stringList_implements.accepts prior.asStringList).map _ ?_
      rintro bs δ p ⟨ss, hss, rfl, rfl, rfl⟩
      exact ⟨.stringList ss, ⟨rfl, hss⟩, rfl, rfl, rfl⟩
    · rw [if_neg h₁, if_neg h₂, if_neg h₃]
      exact .pure ⟨.none, ⟨h₁, h₂, h₃⟩, rfl, rfl, rfl⟩
  overruns prior := by
    rw [wConstraint_eq]
    rcases constraintType_cases type with rfl | rfl | rfl | ⟨h₁, h₂, h₃⟩
    · rw [if_pos rfl]
      exact ((rangePtr_implements.overruns prior.asRange).map _).conseq
        fun _ _ h => .inl ⟨rfl, h⟩
    · rw [if_neg (by decide), if_pos rfl]
      exact ((wordList_implements.overruns prior.asWordList).map _).conseq
        fun _ _ h => .inr (.inl ⟨rfl, h⟩)
    · rw [if_neg (by decide), if_neg (by decide), if_pos rfl]
      exact ((stringList_implements.overruns prior.asStringList).map _).conseq
        fun _ _ h => .inr (.inr ⟨rfl, h⟩)
    · rw [if_neg h₁, if_neg h₂, if_neg h₃]
      exact .pure
  writes c bs h := by
    rw [wConstraint_eq]
    rcases constraintType_cases type with rfl | rfl | rfl | ⟨h₁, h₂, h₃⟩
    · have henc : rangeFormat.ptr.encoding c.asRange = some bs := h
      rw [if_pos rfl]
      refine ((rangePtr_implements.writes c.asRange bs henc).map _).cast rfl (ofRange_asRange henc)
        fun hok => ?_
      simpa [constraintFormat] using hok
    · have henc : wordListFormat.encoding c.asWordList = some bs := h
      rw [if_neg (by decide), if_pos rfl]
      refine ((wordList_implements.writes c.asWordList bs henc).map _).cast rfl
        (ofWordList_asWordList henc) fun hok => ?_
      simpa [constraintFormat] using hok
    · have henc : stringListFormat.encoding c.asStringList = some bs := h
      rw [if_neg (by decide), if_neg (by decide), if_pos rfl]
      refine ((stringList_implements.writes c.asStringList bs henc).map _).cast rfl
        (ofStringList_asStringList henc) fun hok => ?_
      simpa [constraintFormat] using hok
    · simp only [constraintFormat, if_neg h₁, if_neg h₂, if_neg h₃, Option.some.injEq] at h
      subst h
      rw [if_neg h₁, if_neg h₂, if_neg h₃]
      exact (EncodesAs.pure c).cast rfl rfl fun _ => trivial
  frees c h := by
    rw [wConstraint_eq]
    rcases constraintType_cases type with rfl | rfl | rfl | ⟨h₁, h₂, h₃⟩
    · have hcons : rangeFormat.ptr.Consistent c.asRange := h
      obtain ⟨p, hp⟩ := (@rangePtr_implements ver).frees c.asRange hcons
      rw [if_pos rfl]
      exact ⟨_, (hp.map _).cast rfl (rangeHeld_of_consistent hcons)⟩
    · have hcons : wordListFormat.Consistent c.asWordList := h
      obtain ⟨p, hp⟩ := (@wordList_implements ver).frees c.asWordList hcons
      rw [if_neg (by decide), if_pos rfl]
      exact ⟨_, (hp.map _).cast rfl (wordListHeld_of_consistent hcons)⟩
    · have hcons : stringListFormat.Consistent c.asStringList := h
      obtain ⟨p, hp⟩ := (@stringList_implements ver).frees c.asStringList hcons
      rw [if_neg (by decide), if_neg (by decide), if_pos rfl]
      exact ⟨_, (hp.map _).cast rfl (stringListHeld_of_consistent hcons)⟩
    · simp only [constraintFormat, if_neg h₁, if_neg h₂, if_neg h₃] at h
      rw [if_neg h₁, if_neg h₂, if_neg h₃]
      exact ⟨c, (FreesAs.pure c).cast rfl h.symm⟩

theorem saneiWOptionDescriptor_implements :
    Implements ver (saneiWOptionDescriptor saneiCodecBin) optionDescriptorFormat := by
  refine (binWString_implements.pair (binWString_implements.pair (binWString_implements.pair
    (binWWord_implements.pair (binWWord_implements.pair (binWWord_implements.pair
      (binWWord_implements.pair (Implements.keyed wConstraint_implements)))))))).map _ _
        fun v => ?_
  simp only [saneiWOptionDescriptor, saneiWValueType, saneiWUnit, saneiWConstraintType,
    saneiWEnum_eq, pairCodec, keyedCodec, bind_assoc, pure_bind]
  rfl

end SaneBackends
