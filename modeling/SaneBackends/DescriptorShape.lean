import SaneBackends.WireParsing
import SaneBackends.WireRoundTrip

/-!
# The constraints of decoded option descriptors

The length of a constraint list travels in front of it, and every use of the list
afterwards finds the length in the list itself.  Decoding does not compare the two,
and it takes a null pointer for a range.  The descriptors that a stream is decoded to
are well formed exactly when the peer kept to the conventions.
-/

namespace SaneBackends

open FaultState WordBytes SignedWords

/-! ### Well-formed constraints -/

/-- A word list of exactly `word_list[0] + 1` words. -/
def WordListShape : Ptr (List SaneWord) → Prop
  | .block (n :: ws) => n.toInt = ws.length
  | _ => False

/-- A list of strings whose first null pointer is its last element. -/
def StringListShape : Ptr (List SaneString) → Prop
  | .block ss => ss.getLast? = some .null ∧ .null ∉ ss.dropLast
  | _ => False

def RangeShape : Ptr SaneRange → Prop
  | .block _ => True
  | _ => False

instance : (p : Ptr (List SaneWord)) → Decidable (WordListShape p)
  | .null => inferInstanceAs (Decidable False)
  | .wild => inferInstanceAs (Decidable False)
  | .block [] => inferInstanceAs (Decidable False)
  | .block (n :: ws) => inferInstanceAs (Decidable (n.toInt = ws.length))

instance : (p : Ptr (List SaneString)) → Decidable (StringListShape p)
  | .null => inferInstanceAs (Decidable False)
  | .wild => inferInstanceAs (Decidable False)
  | .block ss => inferInstanceAs (Decidable (ss.getLast? = some .null ∧ .null ∉ ss.dropLast))

instance : (p : Ptr SaneRange) → Decidable (RangeShape p)
  | .null => inferInstanceAs (Decidable False)
  | .wild => inferInstanceAs (Decidable False)
  | .block _ => inferInstanceAs (Decidable True)

/-- The constraint is what its type says. -/
def SaneOptionDescriptor.WellFormed (d : SaneOptionDescriptor) : Prop :=
  if d.constraintType = SANE_CONSTRAINT_RANGE then RangeShape d.constraint.asRange
  else if d.constraintType = SANE_CONSTRAINT_WORD_LIST then WordListShape d.constraint.asWordList
  else if d.constraintType = SANE_CONSTRAINT_STRING_LIST then
    StringListShape d.constraint.asStringList
  else True

instance (d : SaneOptionDescriptor) : Decidable d.WellFormed :=
  inferInstanceAs (Decidable (ite _ _ _))

/-- What a pointer points to. -/
def Ptr.target {α : Type} : Ptr α → Option α
  | .block a => some a
  | _ => none

/-- The descriptors of a decoded list. -/
def SaneArray.descriptors (a : SaneArray (Ptr SaneOptionDescriptor)) :
    List SaneOptionDescriptor :=
  (a.v.target.getD []).filterMap Ptr.target

/-- The length that is found in a well-formed list is that of its block. -/
theorem wordLenOf_of_shape {ws : List SaneWord} (h : WordListShape (.block ws))
    (hmax : ws.length ≤ MAX_MEM) : wordLenOf (.block ws) = some ws.length := by
  cases ws with
  | nil => cases h
  | cons n ws =>
    have hlen : n.toInt = ws.length := h
    have hbound : MAX_MEM = 1048576 := rfl
    rw [List.length_cons] at hmax
    obtain ⟨hnat, -⟩ := toNat_of_nonneg (k := n) (by omega)
    have hsucc : (n + 1).toNat = n.toNat + 1 := by
      rw [BitVec.toNat_add]
      exact Nat.mod_eq_of_lt (show n.toNat + 1 < 2 ^ 32 by omega)
    rw [wordLenOf, hsucc, List.length_cons]
    congr 1
    omega

/-- The first null pointer stands last exactly when it is found there. -/
theorem stringListShape_iff {ss : List SaneString} :
    StringListShape (.block ss) ↔ ptrLenOf (.block ss) = some ss.length := by
  have hstep : ∀ p : SaneString, p ≠ .null → ∀ ss,
      ptrLenOf (.block (p :: ss)) = (ptrLenOf (.block ss)).map (· + 1) := by
    intro p hp ss
    have hlen : ptrListLen (p :: ss) = (ptrListLen ss).map (· + 1) := by
      cases p with
      | null => exact absurd rfl hp
      | wild => rfl
      | block bs => rfl
    rw [ptrLenOf, ptrLenOf, hlen]
    cases ptrListLen ss <;> rfl
  induction ss with
  | nil => simp [StringListShape, ptrLenOf, ptrListLen, Except.toOption]
  | cons p ss ih =>
    by_cases hp : p = .null
    · subst hp
      cases ss with
      | nil => simp [StringListShape, ptrLenOf, ptrListLen, Except.toOption]
      | cons q ss => simp [StringListShape, ptrLenOf, ptrListLen, Except.toOption]
    · rw [hstep p hp, List.length_cons]
      cases ss with
      | nil => simp [StringListShape, ptrLenOf, ptrListLen, Except.toOption, hp]
      | cons q ss =>
        have hshape : StringListShape (.block (p :: q :: ss)) ↔ StringListShape (.block (q :: ss)) := by
          have hne : Ptr.null ≠ p := fun h => hp h.symm
          simp [StringListShape, List.dropLast, hne]
        refine hshape.trans (ih.trans ?_)
        simp

/-! ### What a peer may send -/

/-- A word list begins with the number of the words that follow, a list of strings has
    one null string, at its end, and a range is there. -/
def ConstraintMsg.Honest : ConstraintMsg → Prop
  | .none => True
  | .range (.null _) => False
  | .range (.value _) => True
  | .wordList [] => False
  | .wordList (n :: ws) => n.toInt = ws.length
  | .stringList ss => ss.getLast? = some [] ∧ [] ∉ ss.dropLast

theorem terminate_eq_null {bs : List SaneByte} : terminate bs = .null ↔ bs = [] := by
  cases bs with
  | nil => simp [terminate]
  | cons b bs => simp [terminate]

theorem stringListShape_value {prior : Ptr (List SaneString)} {ss : List (List SaneByte)} :
    StringListShape (stringListFormat.value prior ss) ↔ ss.getLast? = some [] ∧ [] ∉ ss.dropLast := by
  have hblock : ∀ ps : List SaneString, StringListShape (SaneArray.of ps).v ↔
      ps.getLast? = some .null ∧ .null ∉ ps.dropLast := by
    intro ps
    cases ps with
    | nil => simp [SaneArray.of, StringListShape]
    | cons p ps => exact Iff.rfl
  have hvalue : stringListFormat.value prior ss = (SaneArray.of (ss.map terminate)).v := rfl
  have hmem : .null ∈ (ss.map terminate).dropLast ↔ [] ∈ ss.dropLast := by
    rw [← List.map_dropLast, List.mem_map]
    simp only [terminate_eq_null, exists_eq_right]
  rw [hvalue, hblock, hmem, List.getLast?_map]
  simp only [Option.map_eq_some_iff, terminate_eq_null, exists_eq_right]

/-- Decoding keeps the shape that was sent. -/
theorem wellFormed_value {m : OptionDescriptorMsg} {prior : SaneOptionDescriptor}
    (hm : optionDescriptorFormat.Valid m) :
    (optionDescriptorFormat.value prior m).WellFormed ↔ m.constraint.Honest := by
  obtain ⟨name, title, desc, type, unit, size, cap, constraintType, c⟩ := m
  obtain ⟨-, -, -, -, -, -, -, hc⟩ := hm
  have ht : c.HasType constraintType := ConstraintMsg.hasType_of_valid hc
  change SaneOptionDescriptor.WellFormed
    ⟨_, _, _, _, _, _, _, constraintType, (constraintFormat constraintType).value _ c⟩ ↔ _
  simp only [SaneOptionDescriptor.WellFormed]
  rcases constraintType_cases constraintType with rfl | rfl | rfl | ⟨h₁, h₂, h₃⟩
  · obtain ⟨r, rfl⟩ := ConstraintMsg.eq_range ht
    cases r with
    | null w => exact Iff.rfl
    | value r => exact Iff.rfl
  · obtain ⟨ws, rfl⟩ := ConstraintMsg.eq_wordList ht
    change WordListShape (SaneConstraint.ofWordList _).asWordList ↔ _
    rw [SaneConstraint.asWordList_ofWordList]
    cases ws with
    | nil => exact Iff.rfl
    | cons n ws =>
      change n.toInt = (ws.map id).length ↔ _
      rw [List.map_id]
      exact Iff.rfl
  · obtain ⟨ss, rfl⟩ := ConstraintMsg.eq_stringList ht
    change StringListShape (SaneConstraint.ofStringList _).asStringList ↔ _
    rw [SaneConstraint.asStringList_ofStringList]
    exact stringListShape_value
  · cases ConstraintMsg.eq_none ht h₁ h₂ h₃
    simp only [if_neg h₁, if_neg h₂, if_neg h₃]
    exact Iff.rfl

/-! ### Walking the lists -/

/-- Every decoded string can be encoded, whatever the peer sent. -/
theorem string_reencodes {bs : List SaneByte} (h : bs.length ≤ MAX_MEM) :
    (stringFormat.encoding (terminate bs)).isSome := by
  cases bs with
  | nil => rfl
  | cons b bs =>
    have hnul : (0 : SaneByte) ∈ (b :: bs).set bs.length 0 :=
      List.mem_iff_getElem?.mpr ⟨bs.length, by rw [List.getElem?_set_self (by simp)]⟩
    obtain ⟨n, hn⟩ : ∃ n, strlen ((b :: bs).set bs.length 0) = .ok n := ⟨_, strlen_of_mem hnul⟩
    have hlen := (strlen_take hn).2.2
    rw [List.length_set] at hlen
    have hfound : stringLenOf (terminate (b :: bs)) = some (n + 1) :=
      stringLenOf_block_eq_some.mpr ⟨n, hn, rfl⟩
    change ((stringLenOf (terminate (b :: bs))).bind _).isSome
    rw [hfound, Option.bind_some]
    refine arrayEncoding_isSome (fun _ _ => rfl) ?_
    rw [(ofNat_of_le_max (n := n + 1) (by omega)).2, List.length_set]
    omega

theorem pair_reencodes {α β μ ν : Type} {F : WireFormat α μ} {G : WireFormat β ν} {v : α × β}
    (h₁ : (F.encoding v.1).isSome) (h₂ : (G.encoding v.2).isSome) :
    ((F.pair G).encoding v).isSome := by
  obtain ⟨bs, hbs⟩ := Option.isSome_iff_exists.mp h₁
  obtain ⟨cs, hcs⟩ := Option.isSome_iff_exists.mp h₂
  simp only [WireFormat.pair, hbs, hcs, Option.bind_some, Option.map_some, Option.isSome_some]

/-- Walking a decoded constraint of the right shape stays inside its list. -/
theorem constraint_reencodes {type : SaneWord} {c : ConstraintMsg} {prior : SaneConstraint}
    (hm : (constraintFormat type).Valid c) (hc : c.Honest) :
    ((constraintFormat type).encoding ((constraintFormat type).value prior c)).isSome := by
  have ht := ConstraintMsg.hasType_of_valid hm
  rcases constraintType_cases type with rfl | rfl | rfl | ⟨h₁, h₂, h₃⟩
  · obtain ⟨r, rfl⟩ := ConstraintMsg.eq_range ht
    cases r with
    | null w => cases hc
    | value r => rfl
  · obtain ⟨ws, rfl⟩ := ConstraintMsg.eq_wordList ht
    obtain ⟨-, hlen, -⟩ := hm
    cases ws with
    | nil => cases hc
    | cons n ws =>
      have hshape : WordListShape (.block (n :: ws)) := hc
      change (wordListFormat.encoding
        (SaneConstraint.ofWordList (.block ((n :: ws).map id))).asWordList).isSome
      rw [SaneConstraint.asWordList_ofWordList, List.map_id]
      exact WireFormat.counted_encoding_isSome (wordLenOf_of_shape hshape hlen) hlen fun _ _ => rfl
  · obtain ⟨ss, rfl⟩ := ConstraintMsg.eq_stringList ht
    obtain ⟨-, hlen, hvalid⟩ := hm
    have hshape := (@stringListShape_value .null _).mpr hc
    cases ss with
    | nil => cases hshape
    | cons s ss =>
      change (stringListFormat.encoding
        (SaneConstraint.ofStringList (.block ((s :: ss).map terminate))).asStringList).isSome
      rw [SaneConstraint.asStringList_ofStringList]
      refine WireFormat.counted_encoding_isSome ((stringListShape_iff).mp hshape)
        (by rw [List.length_map]; exact hlen) fun p hp => ?_
      obtain ⟨bs, hbs, rfl⟩ := List.mem_map.mp hp
      exact string_reencodes (hvalid bs hbs).1
  · cases ConstraintMsg.eq_none ht h₁ h₂ h₃
    simp only [constraintFormat, if_neg h₁, if_neg h₂, if_neg h₃, Option.isSome_some]

theorem descriptor_reencodes {m : OptionDescriptorMsg} {prior : SaneOptionDescriptor}
    (hm : optionDescriptorFormat.Valid m) (hc : m.constraint.Honest) :
    (optionDescriptorFormat.encoding (optionDescriptorFormat.value prior m)).isSome := by
  obtain ⟨hname, htitle, hdesc, -, -, -, -, hvalid⟩ := hm
  refine pair_reencodes (string_reencodes hname.1) (pair_reencodes (string_reencodes htitle.1)
    (pair_reencodes (string_reencodes hdesc.1) (pair_reencodes rfl (pair_reencodes rfl
      (pair_reencodes rfl (pair_reencodes rfl ?_))))))
  simp only [WireFormat.keyed, Option.isSome_map]
  exact constraint_reencodes hvalid hc

/-! ### Lists of descriptors -/

/-- The format of `sanei_w_option_descriptor_array`. -/
def descriptorsFormat : WireFormat SaneOptionDescriptorArray (List (PtrMsg OptionDescriptorMsg)) :=
  optionDescriptorFormat.ptr.array

theorem saneiWOptionDescriptorArray_implements (ver : Int) :
    Implements ver (saneiWOptionDescriptorArray saneiCodecBin) descriptorsFormat :=
  WireType.wValue_implements ver (.array (.ptr .optionDescriptor))

theorem descriptorsFormat_delimits : descriptorsFormat.SelfDelimiting :=
  optionDescriptorFormat_delimits.ptr.array

/-- The stream begins with descriptors that keep to the conventions. -/
def HonestDescriptors (stream : List SaneByte) : Prop :=
  ∃ msgs rest, descriptorsFormat.Valid msgs ∧ stream = descriptorsFormat.bytes msgs ++ rest ∧
    ∀ m, .value m ∈ msgs → m.constraint.Honest

theorem descriptors_of {ps : List (Ptr SaneOptionDescriptor)} {d : SaneOptionDescriptor} :
    d ∈ (SaneArray.of ps).descriptors ↔ .block d ∈ ps := by
  cases ps with
  | nil => simp [SaneArray.of, SaneArray.descriptors, Ptr.target]
  | cons p ps =>
    change d ∈ (p :: ps).filterMap Ptr.target ↔ _
    rw [List.mem_filterMap]
    constructor
    · rintro ⟨q, hq, hd⟩
      cases q with
      | block d' =>
        cases hd
        exact hq
      | null => cases hd
      | wild => cases hd
    · intro hd
      exact ⟨.block d, hd, rfl⟩

theorem descriptors_value {msgs : List (PtrMsg OptionDescriptorMsg)}
    {prior : SaneOptionDescriptorArray} {d : SaneOptionDescriptor} :
    d ∈ (descriptorsFormat.value prior msgs).descriptors ↔
      ∃ m, .value m ∈ msgs ∧ optionDescriptorFormat.value CType.zero m = d := by
  have hvalue : descriptorsFormat.value prior msgs =
      SaneArray.of (msgs.map (optionDescriptorFormat.ptr.value CType.zero)) := rfl
  rw [hvalue, descriptors_of, List.mem_map]
  constructor
  · rintro ⟨m, hm, hd⟩
    cases m with
    | null w => cases hd
    | value m =>
      cases hd
      exact ⟨m, hm, rfl⟩
  · rintro ⟨m, hm, rfl⟩
    exact ⟨.value m, hm, rfl⟩

theorem descriptors_reencode {msgs : List (PtrMsg OptionDescriptorMsg)}
    {prior : SaneOptionDescriptorArray} (hvalid : descriptorsFormat.Valid msgs)
    (hc : ∀ m, .value m ∈ msgs → m.constraint.Honest) :
    (descriptorsFormat.encoding (descriptorsFormat.value prior msgs)).isSome := by
  obtain ⟨hlen, hms⟩ := hvalid
  have henc : ∀ p ∈ msgs.map (optionDescriptorFormat.ptr.value CType.zero),
      (optionDescriptorFormat.ptr.encoding p).isSome := by
    intro p hp
    obtain ⟨m, hm, rfl⟩ := List.mem_map.mp hp
    cases m with
    | null w => rfl
    | value m =>
      simp only [WireFormat.ptr, Option.isSome_map]
      exact descriptor_reencodes (hms _ hm) (hc m hm)
  cases msgs with
  | nil => rfl
  | cons m msgs =>
    refine arrayEncoding_isSome henc ?_
    rw [List.length_map, List.length_cons, List.length_map]
    exact (ofNat_of_le_max hlen).2.le

/-- The descriptors decoded from a stream are well formed exactly when the stream keeps
    to the conventions, and then walking their lists does not leave them. -/
theorem decoded_descriptors_wellFormed {ver : Int} {w w' : Wire}
    {prior decoded : SaneOptionDescriptorArray} (hw : w.InDecode ver)
    (hrun : saneiWOptionDescriptorArray saneiCodecBin prior w = .ok (decoded, w'))
    (hs : w'.status = 0) :
    ((∀ d ∈ decoded.descriptors, d.WellFormed) ↔ HonestDescriptors w.pending) ∧
      ((∀ d ∈ decoded.descriptors, d.WellFormed) →
        (descriptorsFormat.encoding decoded).isSome) := by
  have hstep := (saneiWOptionDescriptorArray_implements ver).accepts prior w decoded w' hw hrun
  obtain ⟨bs, δ, hpend, -, -, hgood⟩ := hstep.moved
  obtain ⟨msgs, hvalid, rfl, rfl, -⟩ := (hgood hs).2
  have hshape : (∀ d ∈ (descriptorsFormat.value prior msgs).descriptors, d.WellFormed) ↔
      ∀ m, .value m ∈ msgs → m.constraint.Honest := by
    constructor
    · intro h m hm
      exact (wellFormed_value (hvalid.2 _ hm)).mp (h _ (descriptors_value.mpr ⟨m, hm, rfl⟩))
    · intro h d hd
      obtain ⟨m, hm, rfl⟩ := descriptors_value.mp hd
      exact (wellFormed_value (hvalid.2 _ hm)).mpr (h m hm)
  refine ⟨hshape.trans ⟨fun h => ⟨msgs, _, hvalid, hpend, h⟩, ?_⟩,
    fun h => descriptors_reencode hvalid (hshape.mp h)⟩
  rintro ⟨ms, rest, hms, hstream, h⟩
  obtain ⟨rfl, -⟩ := descriptorsFormat_delimits _ _ _ _ hvalid hms (hpend.symm.trans hstream)
  exact h

/-- A list of one descriptor, with three null strings and a word list of the words `ws`. -/
def wordListDescriptor (ws : List SaneWord) : List (PtrMsg OptionDescriptorMsg) :=
  [.value ⟨[], [], [], SANE_TYPE_INT, 0, 4, 0, SANE_CONSTRAINT_WORD_LIST, .wordList ws⟩]

/-- The descriptors that a stream is decoded to, and the status. -/
def decodeDescriptors (stream : List SaneByte) :
    Except Fault (List SaneOptionDescriptor × Nat) :=
  (saneiWOptionDescriptorArray saneiCodecBin ⟨0, .null⟩ (decodingWire stream [])).map
    fun r => (r.1.descriptors, r.2.status)

theorem decoded_descriptors_wellFormed_two :
    ∃ decoded w', saneiWOptionDescriptorArray saneiCodecBin ⟨0, .null⟩
        (decodingWire (descriptorsFormat.bytes (wordListDescriptor [2, 75, 300])) []) =
          .ok (decoded, w') ∧ w'.status = 0 ∧ ∀ d ∈ decoded.descriptors, d.WellFormed := by
  have hwire := @decodingWire_ready (descriptorsFormat.bytes (wordListDescriptor [2, 75, 300])) []
    (by simp [ReadsDeliver])
  have hvalid : descriptorsFormat.Valid (wordListDescriptor [2, 75, 300]) := by
    refine ⟨by decide, fun m hm => ?_⟩
    cases List.mem_singleton.mp hm
    have hnull : stringFormat.Valid [] := ⟨by decide, fun _ h => absurd h List.not_mem_nil⟩
    exact ⟨hnull, hnull, hnull, trivial, trivial, trivial, trivial, rfl, by decide,
      fun _ _ => trivial⟩
  obtain ⟨w', hrun, hw', hp, -⟩ := (saneiWOptionDescriptorArray_implements 0).reads ⟨0, .null⟩
    (wordListDescriptor [2, 75, 300]) hvalid _ [] hwire (List.append_nil _).symm (le_refl _)
    (by decide)
  refine ⟨_, w', hrun, hw'.good, ?_⟩
  apply (decoded_descriptors_wellFormed hwire.toInDecode hrun hw'.good).1.mpr
  refine ⟨_, [], hvalid, (List.append_nil _).symm, fun m hm => ?_⟩
  cases List.mem_singleton.mp hm
  exact (by decide : (2 : SaneWord).toInt = 2)

/-- A list of one word that says five more follow is decoded without an error, and
    the length found in it is six. -/
theorem decoded_descriptor_overlong :
    decodeDescriptors (descriptorsFormat.bytes (wordListDescriptor [5])) =
        .ok ([⟨.null, .null, .null, SANE_TYPE_INT, 0, 4, 0, SANE_CONSTRAINT_WORD_LIST,
          .wordList [5]⟩], 0) ∧
      ¬ SaneOptionDescriptor.WellFormed ⟨.null, .null, .null, SANE_TYPE_INT, 0, 4, 0,
        SANE_CONSTRAINT_WORD_LIST, .wordList [5]⟩ ∧
      wordLenOf (.block [5]) = some 6 :=
  ⟨by decide +kernel, by decide, by decide⟩

end SaneBackends
