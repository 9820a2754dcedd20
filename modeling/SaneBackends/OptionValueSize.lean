import SaneBackends.MessageTypes

/-!
# The size of a decoded option value

A control option message carries the size of its value and, apart from that, the
length of the array that holds it.  Decoding goes by the second and never compares
it with the first, while `saned` and the net backend go by the first afterwards.
The value can be used safely exactly when the two words of the peer agree.
-/

namespace SaneBackends

open FaultState WordBytes SignedWords

/-! ### Words of a stream -/

/-- The word with index `i` of a stream. -/
def wordAt (stream : List SaneByte) (i : Nat) : SaneWord := ofBytesBE ((stream.drop (4 * i)).take 4)

@[simp] theorem wordAt_zero (v : SaneWord) (rest : List SaneByte) :
    wordAt (bytesBE v ++ rest) 0 = v := by
  have htake : (bytesBE v ++ rest).take 4 = bytesBE v := List.take_left' (length_bytesBE v)
  rw [wordAt, Nat.mul_zero, List.drop_zero, htake, ofBytesBE_bytesBE]

@[simp] theorem wordAt_succ (v : SaneWord) (rest : List SaneByte) (i : Nat) :
    wordAt (bytesBE v ++ rest) (i + 1) = wordAt rest i := by
  have hdrop : (bytesBE v ++ rest).drop (4 * (i + 1)) = rest.drop (4 * i) := by
    rw [Nat.mul_add, Nat.mul_one, Nat.add_comm, ← List.drop_drop,
      List.drop_left' (length_bytesBE v)]
  rw [wordAt, hdrop, wordAt]

/-! ### When a value can be used -/

/-- The bytes of the block that a value points to. -/
def OptionValue.blockBytes : OptionValue → Nat
  | .words ws => ws.length * 4
  | .chars cs => cs.length
  | _ => 0

/-- The value is null and its size 0, or it points to a block of at least its size.  The
    size is read as `memcpy` reads it, without a sign. -/
def ValueFits (size : SaneWord) : OptionValue → Prop
  | .null => size = 0
  | .wild => False
  | v => size.toNat ≤ v.blockBytes

instance (size : SaneWord) : (v : OptionValue) → Decidable (ValueFits size v)
  | .null => inferInstanceAs (Decidable (size = 0))
  | .wild => inferInstanceAs (Decidable False)
  | .words ws => inferInstanceAs (Decidable (_ ≤ (OptionValue.words ws).blockBytes))
  | .chars cs => inferInstanceAs (Decidable (_ ≤ (OptionValue.chars cs).blockBytes))
  | .voids us => inferInstanceAs (Decidable (_ ≤ (OptionValue.voids us).blockBytes))

/-- `element_size` in `w_option_value`. -/
def elementSize (type : SaneWord) : Nat :=
  if IsWordType type then 4 else if type = SANE_TYPE_STRING then 1 else 0

/-- The size of the peer agrees with the length of its array. -/
def SizeMatches (type size length : SaneWord) : Prop :=
  if length = 0 then size = 0 else size.toNat ≤ length.toNat * elementSize type

instance (type size length : SaneWord) : Decidable (SizeMatches type size length) :=
  inferInstanceAs (Decidable (ite _ _ _))

theorem elementSize_void {type : SaneWord} (h : IsVoidType type) : elementSize type = 0 := by
  obtain ⟨hw, hs⟩ := not_isWordType_of_void h
  rw [elementSize, if_neg hw, if_neg hs]

/-- The number of elements in a valid message is its length word. -/
theorem sizeMatches_iff {α : Type} {xs : List α} (type size : SaneWord)
    (hmax : xs.length ≤ MAX_MEM) :
    SizeMatches type size (BitVec.ofNat 32 xs.length) ↔
      if xs = [] then size = 0 else size.toNat ≤ xs.length * elementSize type := by
  have hnat := (ofNat_of_le_max hmax).1
  have hzero : BitVec.ofNat 32 xs.length = 0 ↔ xs = [] := by
    constructor
    · intro h
      rw [h] at hnat
      exact List.length_eq_zero_iff.mp hnat.symm
    · rintro rfl
      rfl
  simp only [SizeMatches, hzero, hnat]

/-- The first word of the array of a value, as it comes over the wire. -/
def OptionValueMsg.lengthWord : OptionValueMsg → SaneWord
  | .words ws => BitVec.ofNat 32 ws.length
  | .chars cs => BitVec.ofNat 32 cs.length
  | .voids us => BitVec.ofNat 32 us.length

theorem valueFits_iff {type size : SaneWord} {prior : OptionValue} {m : OptionValueMsg}
    (hm : (optionValueFormat type size).Valid m) :
    ValueFits size ((optionValueFormat type size).value prior m) ↔
      SizeMatches type size m.lengthWord := by
  cases m with
  | words ws =>
    obtain ⟨htype, hlen, -⟩ := hm
    have hes : elementSize type = 4 := if_pos htype
    rw [OptionValueMsg.lengthWord, sizeMatches_iff type size hlen, hes]
    cases ws <;> rfl
  | chars cs =>
    obtain ⟨rfl, hlen, -⟩ := hm
    rw [OptionValueMsg.lengthWord, sizeMatches_iff _ size hlen]
    cases cs with
    | nil => rfl
    | cons c cs =>
      have hes : elementSize SANE_TYPE_STRING = 1 := by decide
      rw [if_neg (by simp), hes, Nat.mul_one]
      rfl
  | voids us =>
    obtain ⟨htype, hlen, -⟩ := hm
    rw [OptionValueMsg.lengthWord, sizeMatches_iff type size hlen, elementSize_void htype]
    cases us <;> rfl

theorem lengthWord_of_bytes (type size : SaneWord) (m : OptionValueMsg) :
    ∃ elements, (optionValueFormat type size).bytes m = bytesBE m.lengthWord ++ elements := by
  cases m <;> exact ⟨_, rfl⟩

/-! ### What follows from it -/

/-- Dividing a size that is not negative. -/
theorem toInt_sdiv_four {size : SaneWord} {n : Nat} (h : size.toNat ≤ n * 4) (hn : n ≤ MAX_MEM) :
    (size.sdiv 4).toInt ≤ n := by
  have hmax : MAX_MEM = 1048576 := rfl
  have hint : size.toInt = size.toNat := BitVec.toInt_eq_toNat_of_lt (by omega)
  have hfour : (4 : SaneWord).toInt = 4 := by decide
  rw [toInt_sdiv_of_pos (by omega) (by omega), hint, hfour]
  omega

/-- `saned` encodes a decoded value that fits again without leaving its block. -/
theorem reencodes_of_fits {type size : SaneWord} {prior : OptionValue} {m : OptionValueMsg}
    (hm : (optionValueFormat type size).Valid m)
    (hfits : ValueFits size ((optionValueFormat type size).value prior m)) :
    ((optionValueFormat type size).encoding
      ((optionValueFormat type size).value prior m)).isSome := by
  cases m with
  | words ws =>
    obtain ⟨htype, hlen, -⟩ := hm
    simp only [optionValueFormat, if_pos htype, OptionValue.asWords_ofWords]
    cases ws with
    | nil =>
      have hsize : size = 0 := hfits
      rw [hsize]
      rfl
    | cons x ws => exact arrayEncoding_isSome (fun _ _ => rfl) (toInt_sdiv_four hfits hlen)
  | chars cs =>
    obtain ⟨rfl, hlen, -⟩ := hm
    change (byteFormat.array.encoding ⟨size, (OptionValue.ofChars _).asChars⟩).isSome
    rw [OptionValue.asChars_ofChars]
    cases cs with
    | nil =>
      have hsize : size = 0 := hfits
      rw [hsize]
      rfl
    | cons x cs =>
      have hle : size.toNat ≤ (x :: cs).length := hfits
      have hmax : MAX_MEM = 1048576 := rfl
      apply arrayEncoding_isSome fun _ _ => rfl
      rw [BitVec.toInt_eq_toNat_of_lt (by omega)]
      exact_mod_cast hle
  | voids us =>
    obtain ⟨hw, hs⟩ := not_isWordType_of_void hm.1
    simp only [optionValueFormat, if_neg hw, if_neg hs, if_pos hm.1]
    rfl

/-! ### Requests and replies -/

theorem bytes_typedValue (type size : SaneWord) (m : OptionValueMsg) (rest : List SaneByte) :
    ∃ elements, typedValueFormat.bytes (type, size, m) ++ rest =
      bytesBE type ++ (bytesBE size ++ (bytesBE m.lengthWord ++ elements)) := by
  obtain ⟨elements, helements⟩ := lengthWord_of_bytes type size m
  refine ⟨elements ++ rest, ?_⟩
  simp only [typedValueFormat, WireFormat.keyed, helements, List.append_assoc]

theorem bytes_controlOptionReply (status info : SaneWord)
    (value : SaneWord × SaneWord × OptionValueMsg) (resource rest : List SaneByte) :
    controlOptionReplyFormat.bytes ⟨status, info, value, resource⟩ ++ rest =
      bytesBE status ++ (bytesBE info ++ (typedValueFormat.bytes value ++
        (stringFormat.bytes resource ++ rest))) := by
  simp only [controlOptionReplyFormat, WireFormat.map, WireFormat.pair, wordFormat,
    WireFormat.fixed, controlOptionReplyMsgEquiv, Equiv.coe_fn_symm_mk, List.append_assoc]

/-- A decoded value can be used exactly when the two words of the peer agree, and then
    encoding it again stays inside its block.  A request of protocol version 3 for
    `SANE_ACTION_SET_AUTO` leaves the value what it was. -/
theorem control_option_value_fits (ver : Int) (w : Wire) (hw : w.InDecode ver) :
    (∀ prior req w', saneiWControlOptionReq saneiCodecBin prior w = .ok (req, w') →
      w'.status = 0 →
      (ValueFits req.valueSize req.value ↔
        if SendsValue ver (wordAt w.pending 2) then
          SizeMatches (wordAt w.pending 3) (wordAt w.pending 4) (wordAt w.pending 5)
        else ValueFits prior.valueSize prior.value) ∧
      (SendsValue ver req.action → ValueFits req.valueSize req.value →
        ((optionValueFormat req.valueType req.valueSize).encoding req.value).isSome)) ∧
    (∀ prior reply w', saneiWControlOptionReply saneiCodecBin prior w = .ok (reply, w') →
      w'.status = 0 →
      (ValueFits reply.valueSize reply.value ↔
        SizeMatches (wordAt w.pending 2) (wordAt w.pending 3) (wordAt w.pending 4)) ∧
      (ValueFits reply.valueSize reply.value →
        ((optionValueFormat reply.valueType reply.valueSize).encoding reply.value).isSome)) := by
  constructor
  · intro prior req w' hrun hs
    have hstep := saneiWControlOptionReq_implements.accepts prior w req w' hw hrun
    obtain ⟨bs, δ, hpend, -, -, hgood⟩ := hstep.moved
    obtain ⟨⟨handle, option, action, tail⟩, ⟨-, -, hm⟩, rfl, rfl, -⟩ := (hgood hs).2
    rw [hpend, bytes_controlOptionReq]
    cases tail with
    | none =>
      have hnot : ¬ SendsValue ver action := hm
      simp only [wordAt_succ, wordAt_zero, if_neg hnot]
      exact ⟨Iff.rfl, fun h => absurd h hnot⟩
    | some value =>
      obtain ⟨type, size, m⟩ := value
      obtain ⟨hsends, hvalid⟩ : SendsValue ver action ∧ (optionValueFormat type size).Valid m := hm
      obtain ⟨elements, helements⟩ := bytes_typedValue type size m w'.pending
      simp only [Option.elim_some, helements, wordAt_succ, wordAt_zero, if_pos hsends]
      exact ⟨@valueFits_iff _ _ prior.value _ hvalid,
        fun _ => @reencodes_of_fits _ _ prior.value _ hvalid⟩
  · intro prior reply w' hrun hs
    have hstep := saneiWControlOptionReply_implements.accepts prior w reply w' hw hrun
    obtain ⟨bs, δ, hpend, -, -, hgood⟩ := hstep.moved
    obtain ⟨⟨status, info, ⟨type, size, m⟩, resource⟩, ⟨-, -, hvalid, -⟩, rfl, rfl, -⟩ := (hgood hs).2
    obtain ⟨elements, helements⟩ := bytes_typedValue type size m
      (stringFormat.bytes resource ++ w'.pending)
    rw [hpend, bytes_controlOptionReply, helements]
    simp only [wordAt_succ, wordAt_zero]
    exact ⟨@valueFits_iff _ _ prior.value _ hvalid,
      @reencodes_of_fits _ _ prior.value _ hvalid⟩

/-- A request to set a string option, whose value is said to have `size` bytes and comes
    as an array of two. -/
def stringRequest (size : SaneWord) : List SaneByte :=
  bytesBE 0 ++ bytesBE 1 ++ bytesBE SANE_ACTION_SET_VALUE ++ bytesBE SANE_TYPE_STRING ++
    bytesBE size ++ bytesBE 2 ++ [65, 0]

def blankRequest : SaneControlOptionReq := ⟨0, 0, 0, 0, 0, .null⟩

theorem control_option_value_fits_two :
    ∃ req w', saneiWControlOptionReq saneiCodecBin blankRequest
        (decodingWire (stringRequest 2) []) = .ok (req, w') ∧ w'.status = 0 ∧
      ValueFits req.valueSize req.value := by
  have hok : (saneiWControlOptionReq saneiCodecBin blankRequest
      (decodingWire (stringRequest 2) [])).map (·.2.status) = .ok 0 := by decide +kernel
  cases hrun : saneiWControlOptionReq saneiCodecBin blankRequest
      (decodingWire (stringRequest 2) []) with
  | error e => rw [hrun] at hok; cases hok
  | ok r =>
    obtain ⟨req, w'⟩ := r
    rw [hrun] at hok
    have hs : w'.status = 0 := Except.ok.inj hok
    have hwire := (@decodingWire_ready (stringRequest 2) [] (by simp [ReadsDeliver]))
    have hiff := ((control_option_value_fits 0 _ hwire.toInDecode).1 blankRequest req w' hrun hs).1
    exact ⟨req, w', rfl, hs, hiff.mpr (by decide +kernel)⟩

/-- A request that says 100 bytes is decoded to a value of two, and encoding it again
    leaves the block. -/
theorem control_option_value_overlong :
    (saneiWControlOptionReq saneiCodecBin blankRequest
        (decodingWire (stringRequest 100) [])).map
      (fun r => (r.1.valueType, r.1.valueSize, r.1.value, r.2.status)) =
        .ok (SANE_TYPE_STRING, 100, .chars [65, 0], 0) ∧
      ¬ ValueFits 100 (.chars [65, 0]) ∧
      (optionValueFormat SANE_TYPE_STRING 100).encoding (.chars [65, 0]) = none :=
  ⟨by decide +kernel, by decide, by decide⟩

end SaneBackends
