import SaneBackends.SaneFormats

/-!
# A stream begins with at most one message

The length words make the formats self-delimiting: the bytes of a message say where
it ends, and no other message has them.  What is said of the message a stream begins
with is therefore said of the stream.
-/

namespace SaneBackends

open WordBytes

variable {α β μ ν : Type}

/-- Two messages that begin the same stream are the same. -/
def WireFormat.SelfDelimiting (F : WireFormat α μ) : Prop :=
  ∀ m m' rest rest', F.Valid m → F.Valid m' →
    F.bytes m ++ rest = F.bytes m' ++ rest' → m = m' ∧ rest = rest'

theorem append_bytesBE_inj {u v : SaneWord} {rest rest' : List SaneByte}
    (h : bytesBE u ++ rest = bytesBE v ++ rest') : u = v ∧ rest = rest' := by
  obtain ⟨huv, hrest⟩ := List.append_inj h rfl
  exact ⟨bytesBE_injective huv, hrest⟩

/-! ### Scalars, pairs and choices -/

theorem byteFormat_delimits : byteFormat.SelfDelimiting := by
  intro b b' rest rest' _ _ h
  obtain ⟨hb, hrest⟩ := List.cons.inj h
  exact ⟨hb, hrest⟩

theorem wordFormat_delimits : wordFormat.SelfDelimiting :=
  fun _ _ _ _ _ _ h => append_bytesBE_inj h

theorem WireFormat.SelfDelimiting.pair {F : WireFormat α μ} {G : WireFormat β ν}
    (hF : F.SelfDelimiting) (hG : G.SelfDelimiting) : (F.pair G).SelfDelimiting := by
  rintro ⟨m₁, m₂⟩ ⟨m₁', m₂'⟩ rest rest' ⟨h₁, h₂⟩ ⟨h₁', h₂'⟩ h
  simp only [WireFormat.pair, List.append_assoc] at h
  obtain ⟨rfl, htail⟩ := hF _ _ _ _ h₁ h₁' h
  obtain ⟨rfl, hrest⟩ := hG _ _ _ _ h₂ h₂' htail
  exact ⟨rfl, hrest⟩

theorem WireFormat.keyed_delimits {G : SaneWord → WireFormat β ν}
    (hG : ∀ k, (G k).SelfDelimiting) : (WireFormat.keyed G).SelfDelimiting := by
  rintro ⟨k, m⟩ ⟨k', m'⟩ rest rest' hm hm' h
  simp only [WireFormat.keyed, List.append_assoc] at h
  obtain ⟨rfl, htail⟩ := append_bytesBE_inj h
  obtain ⟨rfl, hrest⟩ := hG k _ _ _ _ hm hm' htail
  exact ⟨rfl, hrest⟩

theorem WireFormat.SelfDelimiting.map {F : WireFormat α μ} (hF : F.SelfDelimiting) (e : α ≃ β)
    (f : μ ≃ ν) : (F.map e f).SelfDelimiting := by
  intro m m' rest rest' hm hm' h
  obtain ⟨heq, hrest⟩ := hF _ _ _ _ hm hm' h
  exact ⟨f.symm.injective heq, hrest⟩

/-! ### Arrays and pointers -/

/-- The elements of two arrays of one length. -/
theorem flatten_delimits {F : WireFormat α μ} (hF : F.SelfDelimiting) {ms ms' : List μ}
    {rest rest' : List SaneByte} (hlen : ms.length = ms'.length) (hms : ∀ m ∈ ms, F.Valid m)
    (hms' : ∀ m ∈ ms', F.Valid m)
    (h : (ms.map F.bytes).flatten ++ rest = (ms'.map F.bytes).flatten ++ rest') :
    ms = ms' ∧ rest = rest' := by
  induction ms generalizing ms' with
  | nil =>
    cases ms' with
    | nil => exact ⟨rfl, h⟩
    | cons m' ms' => cases hlen
  | cons m ms ih =>
    cases ms' with
    | nil => cases hlen
    | cons m' ms' =>
      simp only [List.map_cons, List.flatten_cons, List.append_assoc] at h
      obtain ⟨rfl, htail⟩ := hF _ _ _ _ (hms m (by simp)) (hms' m' (by simp)) h
      obtain ⟨rfl, hrest⟩ := ih (by simpa using hlen) (fun x hx => hms x (by simp [hx]))
        (fun x hx => hms' x (by simp [hx])) htail
      exact ⟨rfl, hrest⟩

theorem WireFormat.SelfDelimiting.array [CType α] {F : WireFormat α μ} (hF : F.SelfDelimiting) :
    F.array.SelfDelimiting := by
  rintro ms ms' rest rest' ⟨hmax, hms⟩ ⟨hmax', hms'⟩ h
  simp only [WireFormat.array, List.append_assoc] at h
  obtain ⟨hword, htail⟩ := append_bytesBE_inj h
  have hlen : ms.length = ms'.length := by
    rw [← (ofNat_of_le_max hmax).1, hword, (ofNat_of_le_max hmax').1]
  exact flatten_delimits hF hlen hms hms' htail

theorem WireFormat.SelfDelimiting.ptr [CType α] {F : WireFormat α μ} (hF : F.SelfDelimiting) :
    F.ptr.SelfDelimiting := by
  rintro (⟨u, hu⟩ | m) (⟨u', hu'⟩ | m') rest rest' hm hm' h
  · obtain ⟨rfl, hrest⟩ := append_bytesBE_inj h
    exact ⟨rfl, hrest⟩
  · simp only [WireFormat.ptr, List.append_assoc] at h
    exact absurd (append_bytesBE_inj h).1 hu
  · simp only [WireFormat.ptr, List.append_assoc] at h
    exact absurd (append_bytesBE_inj h).1.symm hu'
  · simp only [WireFormat.ptr, List.append_assoc] at h
    obtain ⟨rfl, hrest⟩ := hF _ _ _ _ hm hm' (append_bytesBE_inj h).2
    exact ⟨rfl, hrest⟩

/-! ### The SANE types -/

theorem stringFormat_delimits : stringFormat.SelfDelimiting := byteFormat_delimits.array

theorem stringListFormat_delimits : stringListFormat.SelfDelimiting := stringFormat_delimits.array

theorem wordListFormat_delimits : wordListFormat.SelfDelimiting := wordFormat_delimits.array

theorem rangeFormat_delimits : rangeFormat.SelfDelimiting :=
  (wordFormat_delimits.pair (wordFormat_delimits.pair wordFormat_delimits)).map _ _

/-- The constraint type says which of the four kinds the message is. -/
theorem ConstraintMsg.hasType_of_valid {type : SaneWord} {m : ConstraintMsg}
    (h : (constraintFormat type).Valid m) : m.HasType type := by
  cases m with
  | none => exact h
  | range r => exact h.1
  | wordList ws => exact h.1
  | stringList ss => exact h.1

theorem ConstraintMsg.eq_range {m : ConstraintMsg} (h : m.HasType SANE_CONSTRAINT_RANGE) :
    ∃ r, m = .range r := by
  cases m with
  | none => exact absurd rfl h.1
  | range r => exact ⟨r, rfl⟩
  | wordList ws => cases h
  | stringList ss => cases h

theorem ConstraintMsg.eq_wordList {m : ConstraintMsg} (h : m.HasType SANE_CONSTRAINT_WORD_LIST) :
    ∃ ws, m = .wordList ws := by
  cases m with
  | none => exact absurd rfl h.2.1
  | range r => cases h
  | wordList ws => exact ⟨ws, rfl⟩
  | stringList ss => cases h

theorem ConstraintMsg.eq_stringList {m : ConstraintMsg}
    (h : m.HasType SANE_CONSTRAINT_STRING_LIST) : ∃ ss, m = .stringList ss := by
  cases m with
  | none => exact absurd rfl h.2.2
  | range r => cases h
  | wordList ws => cases h
  | stringList ss => exact ⟨ss, rfl⟩

theorem ConstraintMsg.eq_none {type : SaneWord} {m : ConstraintMsg} (h : m.HasType type)
    (hrange : type ≠ SANE_CONSTRAINT_RANGE) (hwords : type ≠ SANE_CONSTRAINT_WORD_LIST)
    (hstrings : type ≠ SANE_CONSTRAINT_STRING_LIST) : m = .none := by
  cases m with
  | none => rfl
  | range r => exact absurd h hrange
  | wordList ws => exact absurd h hwords
  | stringList ss => exact absurd h hstrings

theorem constraintFormat_delimits (type : SaneWord) : (constraintFormat type).SelfDelimiting := by
  intro m m' rest rest' hm hm' h
  have ht := ConstraintMsg.hasType_of_valid hm
  have ht' := ConstraintMsg.hasType_of_valid hm'
  rcases constraintType_cases type with rfl | rfl | rfl | ⟨h₁, h₂, h₃⟩
  · obtain ⟨r, rfl⟩ := ConstraintMsg.eq_range ht
    obtain ⟨r', rfl⟩ := ConstraintMsg.eq_range ht'
    obtain ⟨rfl, hrest⟩ := rangeFormat_delimits.ptr _ _ _ _ hm.2 hm'.2 h
    exact ⟨rfl, hrest⟩
  · obtain ⟨ws, rfl⟩ := ConstraintMsg.eq_wordList ht
    obtain ⟨ws', rfl⟩ := ConstraintMsg.eq_wordList ht'
    obtain ⟨rfl, hrest⟩ := wordListFormat_delimits _ _ _ _ hm.2 hm'.2 h
    exact ⟨rfl, hrest⟩
  · obtain ⟨ss, rfl⟩ := ConstraintMsg.eq_stringList ht
    obtain ⟨ss', rfl⟩ := ConstraintMsg.eq_stringList ht'
    obtain ⟨rfl, hrest⟩ := stringListFormat_delimits _ _ _ _ hm.2 hm'.2 h
    exact ⟨rfl, hrest⟩
  · cases ConstraintMsg.eq_none ht h₁ h₂ h₃
    cases ConstraintMsg.eq_none ht' h₁ h₂ h₃
    exact ⟨rfl, h⟩

theorem optionDescriptorFormat_delimits : optionDescriptorFormat.SelfDelimiting :=
  (stringFormat_delimits.pair (stringFormat_delimits.pair (stringFormat_delimits.pair
    (wordFormat_delimits.pair (wordFormat_delimits.pair (wordFormat_delimits.pair
      (wordFormat_delimits.pair
        (WireFormat.keyed_delimits constraintFormat_delimits)))))))).map _ _

end SaneBackends
