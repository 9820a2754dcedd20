import SaneBackends.WireFormat
import SaneBackends.NetMessages

/-!
# The formats of the SANE types and messages

The format of each structure of `sane.h` and of each message of the network
protocol.  Three kinds of list carry no length of their own in memory: a string ends
at its first NUL, a list of strings or devices at its first null pointer, and a word
list begins with the number of the words that follow.  On the wire all three are
arrays with an independent length.
-/

namespace SaneBackends

open WordBytes

variable {α μ : Type}

/-! ### Lengths found in a list -/

theorem takeM_some {n : Nat} {xs : List α} (h : n ≤ xs.length) :
    takeM some n xs = some (xs.take n) := by
  induction n generalizing xs with
  | zero => rfl
  | succ n ih =>
    cases xs with
    | nil => simp at h
    | cons x xs =>
      rw [List.length_cons] at h
      exact takeM_cons_eq_some.mpr ⟨x, xs.take n, rfl, ih (by omega), by simp⟩

/-- The first null pointer stays where it is when null pointers stay null and the
    others do not become so. -/
theorem ptrListLen_of_takeM {β : Type} {content : Ptr α → Option μ} {value : μ → Ptr β}
    (hnull : ∀ p m, content p = some m → (p = .null ↔ value m = .null))
    {ps : List (Ptr α)} {n : Nat} {ms : List μ} (hlen : ptrListLen ps = .ok n)
    (h : takeM content (n + 1) ps = some ms) : ptrListLen (ms.map value) = .ok n := by
  induction ps generalizing n ms with
  | nil => cases hlen
  | cons p ps ih =>
    obtain ⟨m, ms', hm, hms, rfl⟩ := takeM_cons_eq_some.mp h
    have hp := hnull p m hm
    by_cases h0 : p = .null
    · rw [h0, ptrListLen] at hlen
      cases hlen
      rw [List.map_cons, hp.mp h0, ptrListLen]
    · have hstep : ptrListLen (p :: ps) = (ptrListLen ps).map (· + 1) := by
        cases p with
        | null => exact absurd rfl h0
        | wild => rfl
        | block a => rfl
      rw [hstep] at hlen
      cases hk : ptrListLen ps with
      | error e => rw [hk] at hlen; cases hlen
      | ok k =>
        rw [hk] at hlen
        cases hlen
        have hih := ih hk hms
        have hv : value m ≠ .null := fun hv => h0 (hp.mpr hv)
        rw [List.map_cons]
        cases hvm : value m with
        | null => exact absurd hvm hv
        | wild => rw [ptrListLen, hih]; rfl; simp
        | block a => rw [ptrListLen, hih]; rfl; simp

/-! ### Strings -/

/-- `strlen (s) + 1`; the null string is sent with length 0. -/
def stringLenOf : Ptr (List SaneByte) → Option Nat
  | .null => some 0
  | .wild => none
  | .block bs => (strlen bs).toOption.map (· + 1)

/-- A decoded string always ends with a NUL, in place of its last byte. -/
def terminate : List SaneByte → SaneString
  | [] => .null
  | b :: bs => .block ((b :: bs).set bs.length 0)

def stringFormat : WireFormat SaneString (List SaneByte) :=
  { byteFormat.counted stringLenOf with value := fun _ bs => terminate bs }

theorem stringLenOf_block_eq_some {bs : List SaneByte} {n : Nat} :
    stringLenOf (.block bs) = some n ↔ ∃ k, strlen bs = .ok k ∧ n = k + 1 := by
  cases hs : strlen bs with
  | error e => simp [stringLenOf, hs, Except.toOption]
  | ok k => simp [stringLenOf, hs, Except.toOption, eq_comm]

theorem held_terminate (bs : List SaneByte) : stringFormat.held (terminate bs) = bs.length := by
  have hsum : ∀ cs : List SaneByte, (cs.map fun _ => 0).sum = 0 := by simp
  cases bs with
  | nil => rfl
  | cons b bs =>
    change ((b :: bs).set bs.length 0).length * 1 + (List.map (fun _ => 0) _).sum = _
    rw [hsum, List.length_set, Nat.mul_one, Nat.add_zero]

theorem bytes_stringFormat (bs : List SaneByte) :
    stringFormat.bytes bs = bytesBE (BitVec.ofNat 32 bs.length) ++ bs := by
  have hflat : (bs.map fun b => [b]).flatten = bs := by
    induction bs with
    | nil => rfl
    | cons b bs ih => simp [ih]
  exact congrArg (bytesBE (BitVec.ofNat 32 bs.length) ++ ·) hflat

theorem memory_stringFormat (bs : List SaneByte) : stringFormat.memory bs = bs.length := by
  simp [stringFormat, WireFormat.counted, WireFormat.array, byteFormat, WireFormat.fixed,
    CType.sizeof]

/-- The well-formed strings: none, and the bytes up to the first NUL. -/
theorem stringFormat_content_eq_some {s : SaneString} {bs : List SaneByte} :
    stringFormat.content s = some bs ↔
      (s = .null ∧ bs = []) ∨
      ∃ cs n, s = .block cs ∧ strlen cs = .ok n ∧ bs = cs.take (n + 1) := by
  change (byteFormat.counted stringLenOf).content s = some bs ↔ _
  rw [WireFormat.counted_content_eq_some]
  constructor
  · rintro (⟨rfl, -, rfl⟩ | ⟨cs, n, rfl, -, hn, htake⟩)
    · exact .inl ⟨rfl, rfl⟩
    · obtain ⟨k, hk, rfl⟩ := (stringLenOf_block_eq_some).mp hn
      have hlt := (strlen_take hk).2.2
      change takeM some (k + 1) cs = some bs at htake
      rw [takeM_some (by omega)] at htake
      cases htake
      exact .inr ⟨cs, k, rfl, hk, rfl⟩
  · rintro (⟨rfl, rfl⟩ | ⟨cs, n, rfl, hn, rfl⟩)
    · exact .inl ⟨rfl, rfl, rfl⟩
    · have hlt := (strlen_take hn).2.2
      refine .inr ⟨cs, n + 1, rfl, by omega, (stringLenOf_block_eq_some).mpr ⟨n, hn, rfl⟩, ?_⟩
      change takeM some (n + 1) cs = _
      rw [takeM_some (by omega)]

/-- A well-formed string has its NUL already. -/
theorem terminate_of_content {s : SaneString} {bs : List SaneByte}
    (h : stringFormat.content s = some bs) : terminate bs = (SaneArray.of bs).v := by
  rcases (stringFormat_content_eq_some).mp h with ⟨-, rfl⟩ | ⟨cs, n, -, hn, rfl⟩
  · rfl
  · obtain ⟨-, hset, hlt⟩ := strlen_take hn
    have hlen : (cs.take (n + 1)).length = n + 1 := by
      rw [List.length_take]
      omega
    cases hc : cs.take (n + 1) with
    | nil => rfl
    | cons b bs =>
      rw [hc] at hset hlen
      rw [terminate, show bs.length = n by simpa using hlen, hset]
      rfl

theorem stringFormat_counted_lawful : (byteFormat.counted stringLenOf).Lawful := by
  apply (WireFormat.fixed_lawful _).counted rfl (le_refl 1)
  intro xs n ms _ hn htake
  obtain ⟨k, hk, rfl⟩ := (stringLenOf_block_eq_some).mp hn
  obtain ⟨hstr, -, hlt⟩ := strlen_take hk
  change takeM some (k + 1) xs = some ms at htake
  rw [takeM_some (by omega)] at htake
  cases htake
  apply (stringLenOf_block_eq_some).mpr
  exact ⟨k, by rw [← hstr]; exact congrArg strlen (List.map_id _), rfl⟩

theorem stringFormat_lawful : stringFormat.Lawful where
  held_value _ bs _ := by
    rw [memory_stringFormat]
    exact held_terminate bs
  encodes := stringFormat_counted_lawful.encodes
  valid := stringFormat_counted_lawful.valid
  again prior s bs h _ := by
    have hagain := stringFormat_counted_lawful.again .null s bs h rfl
    change stringFormat.content (terminate bs) = some bs
    rw [terminate_of_content h, ← hagain]
    change _ = stringFormat.content (SaneArray.of (bs.map id)).v
    rw [List.map_id]

/-! ### The structures of `sane.h` -/

def rangeEquiv : SaneWord × SaneWord × SaneWord ≃ SaneRange where
  toFun t := ⟨t.1, t.2.1, t.2.2⟩
  invFun r := (r.min, r.max, r.quant)
  left_inv _ := rfl
  right_inv _ := rfl

def rangeFormat : WireFormat SaneRange SaneRange :=
  (wordFormat.pair (wordFormat.pair wordFormat)).map rangeEquiv rangeEquiv

theorem wordFormat_lawful : wordFormat.Lawful := WireFormat.fixed_lawful _

theorem rangeFormat_lawful : rangeFormat.Lawful :=
  (wordFormat_lawful.pair (wordFormat_lawful.pair wordFormat_lawful)).map _ _

structure DeviceMsg where
  name : List SaneByte
  vendor : List SaneByte
  model : List SaneByte
  type : List SaneByte
deriving DecidableEq, Repr

def deviceEquiv : SaneString × SaneString × SaneString × SaneString ≃ SaneDevice where
  toFun t := ⟨t.1, t.2.1, t.2.2.1, t.2.2.2⟩
  invFun d := (d.name, d.vendor, d.model, d.type)
  left_inv _ := rfl
  right_inv _ := rfl

def deviceMsgEquiv :
    List SaneByte × List SaneByte × List SaneByte × List SaneByte ≃ DeviceMsg where
  toFun t := ⟨t.1, t.2.1, t.2.2.1, t.2.2.2⟩
  invFun d := (d.name, d.vendor, d.model, d.type)
  left_inv _ := rfl
  right_inv _ := rfl

def deviceFormat : WireFormat SaneDevice DeviceMsg :=
  (stringFormat.pair (stringFormat.pair (stringFormat.pair stringFormat))).map
    deviceEquiv deviceMsgEquiv

theorem deviceFormat_lawful : deviceFormat.Lawful :=
  (stringFormat_lawful.pair
    (stringFormat_lawful.pair (stringFormat_lawful.pair stringFormat_lawful))).map _ _

def parametersEquiv :
    SaneWord × SaneWord × SaneWord × SaneWord × SaneWord × SaneWord ≃ SaneParameters where
  toFun t := ⟨t.1, t.2.1, t.2.2.1, t.2.2.2.1, t.2.2.2.2.1, t.2.2.2.2.2⟩
  invFun p := (p.format, p.lastFrame, p.bytesPerLine, p.pixelsPerLine, p.lines, p.depth)
  left_inv _ := rfl
  right_inv _ := rfl

def parametersFormat : WireFormat SaneParameters SaneParameters :=
  (wordFormat.pair (wordFormat.pair (wordFormat.pair
    (wordFormat.pair (wordFormat.pair wordFormat))))).map parametersEquiv parametersEquiv

theorem parametersFormat_lawful : parametersFormat.Lawful :=
  (wordFormat_lawful.pair (wordFormat_lawful.pair (wordFormat_lawful.pair
    (wordFormat_lawful.pair (wordFormat_lawful.pair wordFormat_lawful))))).map _ _

/-! ### Constraints -/

/-- `word_list[0] + 1`, a sum of words. -/
def wordLenOf : Ptr (List SaneWord) → Option Nat
  | .block (n :: _) => some (n + 1).toNat
  | _ => none

/-- The pointers up to the first null one, that one included. -/
def ptrLenOf : Ptr (List (Ptr α)) → Option Nat
  | .block ps => (ptrListLen ps).toOption.map (· + 1)
  | _ => none

def wordListFormat : WireFormat (Ptr (List SaneWord)) (List SaneWord) :=
  wordFormat.counted wordLenOf

def stringListFormat : WireFormat (Ptr (List SaneString)) (List (List SaneByte)) :=
  stringFormat.counted ptrLenOf

theorem ptrLenOf_block_eq_some {ps : List (Ptr α)} {n : Nat} :
    ptrLenOf (.block ps) = some n ↔ ∃ k, ptrListLen ps = .ok k ∧ n = k + 1 := by
  cases hs : ptrListLen ps with
  | error e => simp [ptrLenOf, hs, Except.toOption]
  | ok k => simp [ptrLenOf, hs, Except.toOption, eq_comm]

theorem wordListFormat_lawful : wordListFormat.Lawful := by
  apply wordFormat_lawful.counted rfl (by decide)
  intro ws n ms h0 hn htake
  cases ws with
  | nil => cases hn
  | cons w ws =>
    cases n with
    | zero => exact absurd rfl h0
    | succ n =>
      obtain ⟨m, ms', hm, -, rfl⟩ := takeM_cons_eq_some.mp htake
      cases hm
      exact hn

theorem stringListFormat_lawful : stringListFormat.Lawful := by
  apply stringFormat_lawful.counted rfl (by decide)
  intro ss n ms _ hn htake
  obtain ⟨k, hk, rfl⟩ := (ptrLenOf_block_eq_some).mp hn
  apply (ptrLenOf_block_eq_some).mpr
  refine ⟨k, ptrListLen_of_takeM ?_ hk htake, rfl⟩
  intro s bs hs
  rcases (stringFormat_content_eq_some).mp hs with ⟨rfl, rfl⟩ | ⟨cs, m, rfl, hm, rfl⟩
  · exact ⟨fun _ => rfl, fun _ => rfl⟩
  · obtain ⟨-, -, hlt⟩ := strlen_take hm
    cases cs with
    | nil => cases hm
    | cons c cs => constructor <;> intro h <;> cases h

/-- What follows the constraint type on the wire. -/
inductive ConstraintMsg where
  | none
  | range (r : PtrMsg SaneRange)
  | wordList (ws : List SaneWord)
  | stringList (ss : List (List SaneByte))
deriving DecidableEq, Repr

def constraintHeld : SaneConstraint → Nat
  | .null => 0
  | .wild => 0
  | .range r => rangeFormat.ptr.held (.block r)
  | .wordList ws => wordListFormat.held (.block ws)
  | .stringList ss => stringListFormat.held (.block ss)

def constraintFormat (type : SaneWord) : WireFormat SaneConstraint ConstraintMsg where
  bytes
    | .none => []
    | .range r => rangeFormat.ptr.bytes r
    | .wordList ws => wordListFormat.bytes ws
    | .stringList ss => stringListFormat.bytes ss
  memory
    | .none => 0
    | .range r => rangeFormat.ptr.memory r
    | .wordList ws => wordListFormat.memory ws
    | .stringList ss => stringListFormat.memory ss
  Valid
    | .none => type ≠ SANE_CONSTRAINT_RANGE ∧ type ≠ SANE_CONSTRAINT_WORD_LIST ∧
        type ≠ SANE_CONSTRAINT_STRING_LIST
    | .range r => type = SANE_CONSTRAINT_RANGE ∧ rangeFormat.ptr.Valid r
    | .wordList ws => type = SANE_CONSTRAINT_WORD_LIST ∧ wordListFormat.Valid ws
    | .stringList ss => type = SANE_CONSTRAINT_STRING_LIST ∧ stringListFormat.Valid ss
  value prior
    | .none => prior
    | .range r => .ofRange (rangeFormat.ptr.value .null r)
    | .wordList ws => .ofWordList (wordListFormat.value .null ws)
    | .stringList ss => .ofStringList (stringListFormat.value .null ss)
  held := constraintHeld
  encoding c :=
    if type = SANE_CONSTRAINT_RANGE then rangeFormat.ptr.encoding c.asRange
    else if type = SANE_CONSTRAINT_WORD_LIST then wordListFormat.encoding c.asWordList
    else if type = SANE_CONSTRAINT_STRING_LIST then stringListFormat.encoding c.asStringList
    else some []
  content c :=
    if type = SANE_CONSTRAINT_RANGE then (rangeFormat.ptr.content c.asRange).map .range
    else if type = SANE_CONSTRAINT_WORD_LIST then
      (wordListFormat.content c.asWordList).map .wordList
    else if type = SANE_CONSTRAINT_STRING_LIST then
      (stringListFormat.content c.asStringList).map .stringList
    else some .none
  Consistent c :=
    if type = SANE_CONSTRAINT_RANGE then rangeFormat.ptr.Consistent c.asRange
    else if type = SANE_CONSTRAINT_WORD_LIST then wordListFormat.Consistent c.asWordList
    else if type = SANE_CONSTRAINT_STRING_LIST then stringListFormat.Consistent c.asStringList
    else constraintHeld c = 0
  Overruns a s :=
    (type = SANE_CONSTRAINT_RANGE ∧ rangeFormat.ptr.Overruns a s) ∨
      (type = SANE_CONSTRAINT_WORD_LIST ∧ wordListFormat.Overruns a s) ∨
      (type = SANE_CONSTRAINT_STRING_LIST ∧ stringListFormat.Overruns a s)

theorem constraintHeld_ofRange (p : Ptr SaneRange) :
    constraintHeld (.ofRange p) = rangeFormat.ptr.held p := by cases p <;> rfl

theorem constraintHeld_ofWordList (p : Ptr (List SaneWord)) :
    constraintHeld (.ofWordList p) = wordListFormat.held p := by cases p <;> rfl

theorem constraintHeld_ofStringList (p : Ptr (List SaneString)) :
    constraintHeld (.ofStringList p) = stringListFormat.held p := by cases p <;> rfl

/-- The constraint types that `sanei_w_option_descriptor` tells apart. -/
theorem constraintType_cases (type : SaneWord) :
    type = SANE_CONSTRAINT_RANGE ∨ type = SANE_CONSTRAINT_WORD_LIST ∨
      type = SANE_CONSTRAINT_STRING_LIST ∨
      (type ≠ SANE_CONSTRAINT_RANGE ∧ type ≠ SANE_CONSTRAINT_WORD_LIST ∧
        type ≠ SANE_CONSTRAINT_STRING_LIST) := by
  by_cases h₁ : type = SANE_CONSTRAINT_RANGE
  · exact .inl h₁
  by_cases h₂ : type = SANE_CONSTRAINT_WORD_LIST
  · exact .inr (.inl h₂)
  by_cases h₃ : type = SANE_CONSTRAINT_STRING_LIST
  · exact .inr (.inr (.inl h₃))
  · exact .inr (.inr (.inr ⟨h₁, h₂, h₃⟩))

/-- The constraint type that a message belongs to. -/
def ConstraintMsg.HasType : ConstraintMsg → SaneWord → Prop
  | .none, type => type ≠ SANE_CONSTRAINT_RANGE ∧ type ≠ SANE_CONSTRAINT_WORD_LIST ∧
      type ≠ SANE_CONSTRAINT_STRING_LIST
  | .range _, type => type = SANE_CONSTRAINT_RANGE
  | .wordList _, type => type = SANE_CONSTRAINT_WORD_LIST
  | .stringList _, type => type = SANE_CONSTRAINT_STRING_LIST

/-- The well-formed constraints of each type. -/
theorem constraintFormat_content_eq_some {type : SaneWord} {c : SaneConstraint}
    {m : ConstraintMsg} (h : (constraintFormat type).content c = some m) :
    m.HasType type ∧
      match m with
      | .none => True
      | .range r => rangeFormat.ptr.content c.asRange = some r
      | .wordList ws => wordListFormat.content c.asWordList = some ws
      | .stringList ss => stringListFormat.content c.asStringList = some ss := by
  rcases constraintType_cases type with rfl | rfl | rfl | ⟨h₁, h₂, h₃⟩
  · obtain ⟨r, hr, rfl⟩ := Option.map_eq_some_iff.mp h
    exact ⟨rfl, hr⟩
  · obtain ⟨ws, hws, rfl⟩ := Option.map_eq_some_iff.mp h
    exact ⟨rfl, hws⟩
  · obtain ⟨ss, hss, rfl⟩ := Option.map_eq_some_iff.mp h
    exact ⟨rfl, hss⟩
  · simp only [constraintFormat, if_neg h₁, if_neg h₂, if_neg h₃, Option.some.injEq] at h
    subst h
    exact ⟨⟨h₁, h₂, h₃⟩, trivial⟩

theorem rangePtr_lawful : rangeFormat.ptr.Lawful := rangeFormat_lawful.ptr rfl

theorem constraintFormat_lawful (type : SaneWord) : (constraintFormat type).Lawful where
  held_value prior m h := by
    cases m with
    | none => exact h
    | range r => exact (constraintHeld_ofRange _).trans (rangePtr_lawful.held_value .null r rfl)
    | wordList ws =>
      exact (constraintHeld_ofWordList _).trans (wordListFormat_lawful.held_value .null ws rfl)
    | stringList ss =>
      exact (constraintHeld_ofStringList _).trans
        (stringListFormat_lawful.held_value .null ss rfl)
  encodes c m h hmax := by
    obtain ⟨hvalid, hcontent⟩ := constraintFormat_content_eq_some h
    cases m with
    | none =>
      obtain ⟨h₁, h₂, h₃⟩ := hvalid
      simp only [constraintFormat, if_neg h₁, if_neg h₂, if_neg h₃]
    | range r =>
      cases hvalid
      exact rangePtr_lawful.encodes _ r hcontent hmax
    | wordList ws =>
      cases hvalid
      exact wordListFormat_lawful.encodes _ ws hcontent hmax
    | stringList ss =>
      cases hvalid
      exact stringListFormat_lawful.encodes _ ss hcontent hmax
  valid c m h hmax := by
    obtain ⟨hvalid, hcontent⟩ := constraintFormat_content_eq_some h
    cases m with
    | none => exact hvalid
    | range r => exact ⟨hvalid, rangePtr_lawful.valid _ r hcontent hmax⟩
    | wordList ws => exact ⟨hvalid, wordListFormat_lawful.valid _ ws hcontent hmax⟩
    | stringList ss => exact ⟨hvalid, stringListFormat_lawful.valid _ ss hcontent hmax⟩
  again prior c m h _ := by
    obtain ⟨hvalid, hcontent⟩ := constraintFormat_content_eq_some h
    cases m with
    | none =>
      obtain ⟨h₁, h₂, h₃⟩ := hvalid
      simp only [constraintFormat, if_neg h₁, if_neg h₂, if_neg h₃]
    | range r =>
      cases hvalid
      change (rangeFormat.ptr.content (SaneConstraint.ofRange _).asRange).map _ = _
      rw [SaneConstraint.asRange_ofRange, rangePtr_lawful.again .null _ r hcontent rfl]
      rfl
    | wordList ws =>
      cases hvalid
      change (wordListFormat.content (SaneConstraint.ofWordList _).asWordList).map _ = _
      rw [SaneConstraint.asWordList_ofWordList,
        wordListFormat_lawful.again .null _ ws hcontent rfl]
      rfl
    | stringList ss =>
      cases hvalid
      change (stringListFormat.content (SaneConstraint.ofStringList _).asStringList).map _ = _
      rw [SaneConstraint.asStringList_ofStringList,
        stringListFormat_lawful.again .null _ ss hcontent rfl]
      rfl

/-! ### Option descriptors -/

structure OptionDescriptorMsg where
  name : List SaneByte
  title : List SaneByte
  desc : List SaneByte
  type : SaneWord
  unit : SaneWord
  size : SaneWord
  cap : SaneWord
  constraintType : SaneWord
  constraint : ConstraintMsg
deriving DecidableEq, Repr

def optionDescriptorEquiv :
    SaneString × SaneString × SaneString × SaneWord × SaneWord × SaneWord × SaneWord ×
      SaneWord × SaneConstraint ≃ SaneOptionDescriptor where
  toFun t := ⟨t.1, t.2.1, t.2.2.1, t.2.2.2.1, t.2.2.2.2.1, t.2.2.2.2.2.1, t.2.2.2.2.2.2.1,
    t.2.2.2.2.2.2.2.1, t.2.2.2.2.2.2.2.2⟩
  invFun d := (d.name, d.title, d.desc, d.type, d.unit, d.size, d.cap, d.constraintType,
    d.constraint)
  left_inv _ := rfl
  right_inv _ := rfl

def optionDescriptorMsgEquiv :
    List SaneByte × List SaneByte × List SaneByte × SaneWord × SaneWord × SaneWord × SaneWord ×
      SaneWord × ConstraintMsg ≃ OptionDescriptorMsg where
  toFun t := ⟨t.1, t.2.1, t.2.2.1, t.2.2.2.1, t.2.2.2.2.1, t.2.2.2.2.2.1, t.2.2.2.2.2.2.1,
    t.2.2.2.2.2.2.2.1, t.2.2.2.2.2.2.2.2⟩
  invFun d := (d.name, d.title, d.desc, d.type, d.unit, d.size, d.cap, d.constraintType,
    d.constraint)
  left_inv _ := rfl
  right_inv _ := rfl

def optionDescriptorFormat : WireFormat SaneOptionDescriptor OptionDescriptorMsg :=
  (stringFormat.pair (stringFormat.pair (stringFormat.pair (wordFormat.pair (wordFormat.pair
    (wordFormat.pair (wordFormat.pair (.keyed constraintFormat)))))))).map
      optionDescriptorEquiv optionDescriptorMsgEquiv

theorem optionDescriptorFormat_lawful : optionDescriptorFormat.Lawful :=
  (stringFormat_lawful.pair (stringFormat_lawful.pair (stringFormat_lawful.pair
    (wordFormat_lawful.pair (wordFormat_lawful.pair (wordFormat_lawful.pair
      (wordFormat_lawful.pair
        (WireFormat.keyed_lawful constraintFormat_lawful fun _ _ => rfl)))))))).map _ _

/-! ### Option values -/

/-- What follows `value_size` on the wire.  The length of the list is a word of its own
    there, which `value_size` says nothing about. -/
inductive OptionValueMsg where
  | words (ws : List SaneWord)
  | chars (cs : List SaneByte)
  | voids (us : List Unit)
deriving DecidableEq, Repr

def optionValueHeld : OptionValue → Nat
  | .null => 0
  | .wild => 0
  | .words ws => blockHeld wordFormat.held (.block ws)
  | .chars cs => blockHeld byteFormat.held (.block cs)
  | .voids us => blockHeld voidFormat.held (.block us)

def optionValueFormat (type size : SaneWord) : WireFormat OptionValue OptionValueMsg where
  bytes
    | .words ws => wordFormat.array.bytes ws
    | .chars cs => byteFormat.array.bytes cs
    | .voids us => voidFormat.array.bytes us
  memory
    | .words ws => wordFormat.array.memory ws
    | .chars cs => byteFormat.array.memory cs
    | .voids us => voidFormat.array.memory us
  Valid
    | .words ws => IsWordType type ∧ wordFormat.array.Valid ws
    | .chars cs => type = SANE_TYPE_STRING ∧ byteFormat.array.Valid cs
    | .voids us => IsVoidType type ∧ voidFormat.array.Valid us
  value _
    | .words ws => .ofWords (SaneArray.of ws).v
    | .chars cs => .ofChars (SaneArray.of cs).v
    | .voids us => .ofVoids (SaneArray.of us).v
  held := optionValueHeld
  encoding v :=
    if IsWordType type then wordFormat.array.encoding ⟨size.sdiv 4, v.asWords⟩
    else if type = SANE_TYPE_STRING then byteFormat.array.encoding ⟨size, v.asChars⟩
    else if IsVoidType type then voidFormat.array.encoding ⟨0, v.asVoids⟩
    else some []
  content v :=
    if IsWordType type then (wordFormat.array.content ⟨size.sdiv 4, v.asWords⟩).map .words
    else if type = SANE_TYPE_STRING then (byteFormat.array.content ⟨size, v.asChars⟩).map .chars
    else if IsVoidType type then (voidFormat.array.content ⟨0, v.asVoids⟩).map .voids
    else none
  Consistent v :=
    -- the value must also be of the type that it is freed as
    if IsWordType type then
      wordFormat.array.Consistent ⟨size.sdiv 4, v.asWords⟩ ∧
        wordFormat.array.held ⟨size.sdiv 4, v.asWords⟩ = optionValueHeld v
    else if type = SANE_TYPE_STRING then
      byteFormat.array.Consistent ⟨size, v.asChars⟩ ∧
        byteFormat.array.held ⟨size, v.asChars⟩ = optionValueHeld v
    else if IsVoidType type then
      voidFormat.array.Consistent ⟨0, v.asVoids⟩ ∧
        voidFormat.array.held ⟨0, v.asVoids⟩ = optionValueHeld v
    else False
  Overruns a s :=
    (IsWordType type ∧ wordFormat.array.Overruns a s) ∨
      (type = SANE_TYPE_STRING ∧ byteFormat.array.Overruns a s) ∨
      (IsVoidType type ∧ voidFormat.array.Overruns a s)

@[simp] theorem OptionValue.asWords_ofWords (p : Ptr (List SaneWord)) :
    (OptionValue.ofWords p).asWords = p := by cases p <;> rfl

@[simp] theorem OptionValue.asChars_ofChars (p : Ptr (List SaneByte)) :
    (OptionValue.ofChars p).asChars = p := by cases p <;> rfl

@[simp] theorem OptionValue.asVoids_ofVoids (p : Ptr (List Unit)) :
    (OptionValue.ofVoids p).asVoids = p := by cases p <;> rfl

theorem optionValueHeld_ofWords (p : Ptr (List SaneWord)) :
    optionValueHeld (.ofWords p) = blockHeld wordFormat.held p := by cases p <;> rfl

theorem optionValueHeld_ofChars (p : Ptr (List SaneByte)) :
    optionValueHeld (.ofChars p) = blockHeld byteFormat.held p := by cases p <;> rfl

theorem optionValueHeld_ofVoids (p : Ptr (List Unit)) :
    optionValueHeld (.ofVoids p) = blockHeld voidFormat.held p := by cases p <;> rfl

/-- The value types that `w_option_value` tells apart. -/
theorem valueType_cases (type : SaneWord) :
    IsWordType type ∨ type = SANE_TYPE_STRING ∨ IsVoidType type ∨
      (¬ IsWordType type ∧ type ≠ SANE_TYPE_STRING ∧ ¬ IsVoidType type) := by
  by_cases h₁ : IsWordType type
  · exact .inl h₁
  by_cases h₂ : type = SANE_TYPE_STRING
  · exact .inr (.inl h₂)
  by_cases h₃ : IsVoidType type
  · exact .inr (.inr (.inl h₃))
  · exact .inr (.inr (.inr ⟨h₁, h₂, h₃⟩))

theorem not_isWordType_string : ¬ IsWordType SANE_TYPE_STRING := by decide

theorem not_isWordType_of_void {type : SaneWord} (h : IsVoidType type) :
    ¬ IsWordType type ∧ type ≠ SANE_TYPE_STRING := by
  rcases h with rfl | rfl <;> decide

/-- The value types that a message belongs to. -/
def OptionValueMsg.HasType : OptionValueMsg → SaneWord → Prop
  | .words _, type => IsWordType type
  | .chars _, type => type = SANE_TYPE_STRING
  | .voids _, type => IsVoidType type

/-- The well-formed values of each type. -/
theorem optionValueFormat_content_eq_some {type size : SaneWord} {v : OptionValue}
    {m : OptionValueMsg} (h : (optionValueFormat type size).content v = some m) :
    m.HasType type ∧
      match m with
      | .words ws => wordFormat.array.content ⟨size.sdiv 4, v.asWords⟩ = some ws
      | .chars cs => byteFormat.array.content ⟨size, v.asChars⟩ = some cs
      | .voids us => us = [] := by
  rcases valueType_cases type with h₁ | rfl | h₃ | ⟨h₁, h₂, h₃⟩
  · simp only [optionValueFormat, if_pos h₁] at h
    obtain ⟨ws, hws, rfl⟩ := Option.map_eq_some_iff.mp h
    exact ⟨h₁, hws⟩
  · obtain ⟨cs, hcs, rfl⟩ := Option.map_eq_some_iff.mp h
    exact ⟨rfl, hcs⟩
  · obtain ⟨hw, hs⟩ := not_isWordType_of_void h₃
    simp only [optionValueFormat, if_neg hw, if_neg hs, if_pos h₃] at h
    cases h
    exact ⟨h₃, rfl⟩
  · simp only [optionValueFormat, if_neg h₁, if_neg h₂, if_neg h₃, reduceCtorEq] at h

/-- A decoded array found under the length it was sent with. -/
theorem arrayContent_again {F : WireFormat α α} [CType α] (hF : F.array.Lawful)
    (hvalue : ∀ prior m, F.value prior m = m) {n : SaneWord}
    {p : Ptr (List α)} {ms : List α} (h : F.array.content ⟨n, p⟩ = some ms) :
    F.array.content ⟨n, (SaneArray.of ms).v⟩ = some ms := by
  have hlen : (SaneArray.of ms).len = n := by
    rw [SaneArray.len_of]
    exact (len_of_arrayContent h).1
  have hid : ms.map (F.value CType.zero) = ms := by
    rw [List.map_congr_left fun m _ => hvalue CType.zero m, List.map_id']
  have hagain := hF.again ⟨0, .null⟩ _ ms h rfl
  simp only [WireFormat.array, hid] at hagain ⊢
  rw [← hlen]
  exact hagain

theorem byteFormat_lawful : byteFormat.Lawful := WireFormat.fixed_lawful _

theorem wordArray_lawful : wordFormat.array.Lawful := wordFormat_lawful.array rfl (by decide)

theorem byteArray_lawful : byteFormat.array.Lawful := byteFormat_lawful.array rfl (by decide)

theorem fixedArray_held (store : α → List SaneByte) [CType α] (ms : List α) :
    blockHeld (WireFormat.fixed store).held (SaneArray.of ms).v =
      (WireFormat.fixed store).array.memory ms := by
  rw [blockHeld_of]
  rfl

theorem optionValueFormat_lawful (type size : SaneWord) :
    (optionValueFormat type size).Lawful where
  held_value prior m _ := by
    cases m with
    | words ws => exact (optionValueHeld_ofWords _).trans (fixedArray_held _ ws)
    | chars cs => exact (optionValueHeld_ofChars _).trans (fixedArray_held _ cs)
    | voids us => exact (optionValueHeld_ofVoids _).trans (fixedArray_held _ us)
  encodes v m h hmax := by
    obtain ⟨hvalid, hcontent⟩ := optionValueFormat_content_eq_some h
    cases m with
    | words ws =>
      have hword : IsWordType type := hvalid
      simp only [optionValueFormat, if_pos hword]
      exact wordArray_lawful.encodes _ ws hcontent hmax
    | chars cs =>
      cases hvalid
      exact byteArray_lawful.encodes _ cs hcontent hmax
    | voids us =>
      have hvoid : IsVoidType type := hvalid
      obtain ⟨hw, hs⟩ := not_isWordType_of_void hvoid
      have hnil : us = [] := hcontent
      simp only [optionValueFormat, if_neg hw, if_neg hs, if_pos hvoid, hnil]
      rfl
  valid v m h hmax := by
    obtain ⟨hvalid, hcontent⟩ := optionValueFormat_content_eq_some h
    cases m with
    | words ws => exact ⟨hvalid, wordArray_lawful.valid _ ws hcontent hmax⟩
    | chars cs => exact ⟨hvalid, byteArray_lawful.valid _ cs hcontent hmax⟩
    | voids us =>
      have hnil : us = [] := hcontent
      rw [hnil]
      exact ⟨hvalid, Nat.zero_le _, by simp⟩
  again prior v m h _ := by
    obtain ⟨hvalid, hcontent⟩ := optionValueFormat_content_eq_some h
    cases m with
    | words ws =>
      have hword : IsWordType type := hvalid
      simp only [optionValueFormat, if_pos hword, OptionValue.asWords_ofWords]
      rw [arrayContent_again wordArray_lawful (fun _ _ => rfl) hcontent]
      rfl
    | chars cs =>
      cases hvalid
      change (byteFormat.array.content ⟨size, (OptionValue.ofChars _).asChars⟩).map _ = _
      rw [OptionValue.asChars_ofChars,
        arrayContent_again byteArray_lawful (fun _ _ => rfl) hcontent]
      rfl
    | voids us =>
      have hvoid : IsVoidType type := hvalid
      obtain ⟨hw, hs⟩ := not_isWordType_of_void hvoid
      have hnil : us = [] := hcontent
      simp only [optionValueFormat, if_neg hw, if_neg hs, if_pos hvoid, hnil]
      rfl

end SaneBackends
