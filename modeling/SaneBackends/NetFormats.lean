import SaneBackends.SaneImplements

/-!
# The formats of the network messages

The messages of `sanei_net.c` and the wire functions that implement them.  Two of
them do more than follow each other: the option value, whose format depends on the
two words before it, and the control option request, where the value is left out
from protocol version 3 on when there is none to set.
-/

namespace SaneBackends

open FaultState WordBytes

variable {ver : Int}

/-! ### Option values -/

/-- The pointers a decoded array has. -/
theorem SaneArray.of_v_ne_wild {α : Type} (xs : List α) : (SaneArray.of xs).v ≠ .wild := by
  cases xs <;> simp [SaneArray.of]

theorem putWords_of {v : OptionValue} {p : Ptr (List SaneWord)} (hp : p ≠ .wild) :
    v.putWords p = .ofWords p := by
  by_cases h : p = v.asWords
  · rw [OptionValue.putWords, if_pos h]
    cases v with
    | null => rw [h]; rfl
    | words ws => rw [h]; rfl
    | wild | chars _ | voids _ => exact absurd h hp
  · rw [OptionValue.putWords, if_neg h]

theorem putChars_of {v : OptionValue} {p : Ptr (List SaneByte)} (hp : p ≠ .wild) :
    v.putChars p = .ofChars p := by
  by_cases h : p = v.asChars
  · rw [OptionValue.putChars, if_pos h]
    cases v with
    | null => rw [h]; rfl
    | chars cs => rw [h]; rfl
    | wild | words _ | voids _ => exact absurd h hp
  · rw [OptionValue.putChars, if_neg h]

theorem putVoids_of {v : OptionValue} {p : Ptr (List Unit)} (hp : p ≠ .wild) :
    v.putVoids p = .ofVoids p := by
  by_cases h : p = v.asVoids
  · rw [OptionValue.putVoids, if_pos h]
    cases v with
    | null => rw [h]; rfl
    | voids us => rw [h]; rfl
    | wild | words _ | chars _ => exact absurd h hp
  · rw [OptionValue.putVoids, if_neg h]

theorem putWords_decoded (v : OptionValue) (a : SaneArray _) (xs) :
    v.putWords (wordFormat.array.value a xs).v = .ofWords (SaneArray.of xs).v := by
  rw [show wordFormat.array.value a xs = SaneArray.of xs from array_value_fixed _ a xs,
    putWords_of (SaneArray.of_v_ne_wild xs)]

theorem putWords_asWords (v : OptionValue) : v.putWords v.asWords = v := if_pos rfl

theorem putChars_decoded (v : OptionValue) (a : SaneArray _) (xs) :
    v.putChars (byteFormat.array.value a xs).v = .ofChars (SaneArray.of xs).v := by
  rw [show byteFormat.array.value a xs = SaneArray.of xs from array_value_fixed _ a xs,
    putChars_of (SaneArray.of_v_ne_wild xs)]

theorem putChars_asChars (v : OptionValue) : v.putChars v.asChars = v := if_pos rfl

theorem putVoids_decoded (v : OptionValue) (a : SaneArray _) (xs) :
    v.putVoids (voidFormat.array.value a xs).v = .ofVoids (SaneArray.of xs).v := by
  rw [show voidFormat.array.value a xs = SaneArray.of xs from array_value_fixed _ a xs,
    putVoids_of (SaneArray.of_v_ne_wild xs)]

theorem putVoids_asVoids (v : OptionValue) : v.putVoids v.asVoids = v := if_pos rfl

theorem wordArray_implements : Implements ver (saneiWArray binPrims binWWord) wordFormat.array :=
  binWWord_implements.array

theorem byteArray_implements : Implements ver (saneiWArray binPrims binWByte) byteFormat.array :=
  binWByte_implements.array

theorem voidArray_implements :
    Implements ver (saneiWArray binPrims saneiWVoid) voidFormat.array :=
  saneiWVoid_implements.array

/-- The `switch` of `w_option_value`, case by case. -/
theorem wOptionValue_eq (type size : SaneWord) (v : OptionValue) :
    wOptionValue saneiCodecBin type size v =
      if IsWordType type then do
        let a ← saneiWArray binPrims binWWord ⟨size.sdiv 4, v.asWords⟩
        return v.putWords a.v
      else if type = SANE_TYPE_STRING then do
        let a ← saneiWArray binPrims binWByte ⟨size, v.asChars⟩
        return v.putChars a.v
      else if IsVoidType type then do
        let a ← saneiWArray binPrims saneiWVoid ⟨0, v.asVoids⟩
        return v.putVoids a.v
      else do
        setStatus EINVAL
        return v := rfl

/-- A type that is not known is not decoded with a good status. -/
theorem unknownType_accepts (v : OptionValue) {P : List SaneByte → Nat → OptionValue → Prop} :
    DecodesFrom ver (do setStatus EINVAL; return v) P := by
  refine (DecodesFrom.set_status EINVAL (P := fun _ _ _ => False)).map _ ?_
  rintro bs δ u ⟨⟩

theorem wOptionValue_implements (type size : SaneWord) :
    Implements ver (wOptionValue saneiCodecBin type size) (optionValueFormat type size) where
  reads prior m hm := by
    rw [wOptionValue_eq]
    cases m with
    | words ws =>
      rw [if_pos hm.1]
      exact ((wordArray_implements.reads ⟨size.sdiv 4, prior.asWords⟩ ws hm.2).map _).cast rfl
        (putWords_decoded _ _ _) rfl
    | chars cs =>
      obtain ⟨rfl, hcs⟩ := hm
      rw [if_neg (by decide), if_pos rfl]
      exact ((byteArray_implements.reads ⟨size, prior.asChars⟩ cs hcs).map _).cast rfl
        (putChars_decoded _ _ _) rfl
    | voids us =>
      obtain ⟨hw, hs⟩ := not_isWordType_of_void hm.1
      rw [if_neg hw, if_neg hs, if_pos hm.1]
      exact ((voidArray_implements.reads ⟨0, prior.asVoids⟩ us hm.2).map _).cast rfl
        (putVoids_decoded _ _ _) rfl
  accepts prior := by
    rw [wOptionValue_eq]
    rcases valueType_cases type with h₁ | rfl | h₃ | ⟨h₁, h₂, h₃⟩
    · rw [if_pos h₁]
      refine (wordArray_implements.accepts ⟨size.sdiv 4, prior.asWords⟩).map _ ?_
      rintro bs δ a ⟨ws, hws, rfl, rfl, rfl⟩
      exact ⟨.words ws, ⟨h₁, hws⟩, rfl, putWords_decoded _ _ _, rfl⟩
    · rw [if_neg (by decide), if_pos rfl]
      refine (byteArray_implements.accepts ⟨size, prior.asChars⟩).map _ ?_
      rintro bs δ a ⟨cs, hcs, rfl, rfl, rfl⟩
      exact ⟨.chars cs, ⟨rfl, hcs⟩, rfl, putChars_decoded _ _ _, rfl⟩
    · obtain ⟨hw, hs⟩ := not_isWordType_of_void h₃
      rw [if_neg hw, if_neg hs, if_pos h₃]
      refine (voidArray_implements.accepts ⟨0, prior.asVoids⟩).map _ ?_
      rintro bs δ a ⟨us, hus, rfl, rfl, rfl⟩
      exact ⟨.voids us, ⟨h₃, hus⟩, rfl, putVoids_decoded _ _ _, rfl⟩
    · rw [if_neg h₁, if_neg h₂, if_neg h₃]
      exact unknownType_accepts prior
  overruns prior := by
    rw [wOptionValue_eq]
    rcases valueType_cases type with h₁ | rfl | h₃ | ⟨h₁, h₂, h₃⟩
    · rw [if_pos h₁]
      exact ((wordArray_implements.overruns ⟨size.sdiv 4, prior.asWords⟩).map _).conseq
        fun _ _ h => .inl ⟨h₁, h⟩
    · rw [if_neg (by decide), if_pos rfl]
      exact ((byteArray_implements.overruns ⟨size, prior.asChars⟩).map _).conseq
        fun _ _ h => .inr (.inl ⟨rfl, h⟩)
    · obtain ⟨hw, hs⟩ := not_isWordType_of_void h₃
      rw [if_neg hw, if_neg hs, if_pos h₃]
      exact ((voidArray_implements.overruns ⟨0, prior.asVoids⟩).map _).conseq
        fun _ _ h => .inr (.inr ⟨h₃, h⟩)
    · rw [if_neg h₁, if_neg h₂, if_neg h₃]
      exact (OverrunsFrom.set_status EINVAL).map _
  writes v bs h := by
    rw [wOptionValue_eq]
    rcases valueType_cases type with h₁ | rfl | h₃ | ⟨h₁, h₂, h₃⟩
    · simp only [optionValueFormat, if_pos h₁] at h ⊢
      refine ((wordArray_implements.writes _ bs h).map _).cast rfl (putWords_asWords v)
        fun hok => ?_
      simpa using hok
    · have henc : byteFormat.array.encoding ⟨size, v.asChars⟩ = some bs := h
      rw [if_neg (by decide), if_pos rfl]
      refine ((byteArray_implements.writes _ bs henc).map _).cast rfl (putChars_asChars v)
        fun hok => ?_
      have hmap : ((byteFormat.array.content ⟨size, v.asChars⟩).map OptionValueMsg.chars).isSome :=
        hok
      simpa using hmap
    · obtain ⟨hw, hs⟩ := not_isWordType_of_void h₃
      simp only [optionValueFormat, if_neg hw, if_neg hs, if_pos h₃] at h ⊢
      refine ((voidArray_implements.writes _ bs h).map _).cast rfl (putVoids_asVoids v)
        fun hok => ?_
      simpa using hok
    · simp only [optionValueFormat, if_neg h₁, if_neg h₂, if_neg h₃, Option.some.injEq] at h ⊢
      subst h
      exact ((EncodesAs.set_status EINVAL).map _).cast rfl rfl fun hok => by cases hok
  frees v h := by
    rw [wOptionValue_eq]
    rcases valueType_cases type with h₁ | rfl | h₃ | ⟨h₁, h₂, h₃⟩
    · simp only [optionValueFormat, if_pos h₁] at h ⊢
      obtain ⟨a, ha⟩ := (@wordArray_implements ver).frees _ h.1
      exact ⟨_, (ha.map _).cast rfl h.2⟩
    · obtain ⟨hcons, hheld⟩ : byteFormat.array.Consistent ⟨size, v.asChars⟩ ∧
          byteFormat.array.held ⟨size, v.asChars⟩ = optionValueHeld v := h
      obtain ⟨a, ha⟩ := (@byteArray_implements ver).frees _ hcons
      rw [if_neg (by decide), if_pos rfl]
      exact ⟨_, (ha.map _).cast rfl hheld⟩
    · obtain ⟨hw, hs⟩ := not_isWordType_of_void h₃
      simp only [optionValueFormat, if_neg hw, if_neg hs, if_pos h₃] at h ⊢
      obtain ⟨a, ha⟩ := (@voidArray_implements ver).frees _ h.1
      exact ⟨_, (ha.map _).cast rfl h.2⟩
    · simp only [optionValueFormat, if_neg h₁, if_neg h₂, if_neg h₃] at h

/-! ### Requests -/

def initReqEquiv : SaneWord × SaneString ≃ SaneInitReq where
  toFun t := ⟨t.1, t.2⟩
  invFun r := (r.versionCode, r.username)
  left_inv _ := rfl
  right_inv _ := rfl

def initReqFormat : WireFormat SaneInitReq (SaneWord × List SaneByte) :=
  (wordFormat.pair stringFormat).map initReqEquiv (.refl _)

theorem initReqFormat_lawful : initReqFormat.Lawful :=
  (wordFormat_lawful.pair stringFormat_lawful).map _ _

theorem saneiWInitReq_implements : Implements ver (saneiWInitReq saneiCodecBin) initReqFormat := by
  refine (binWWord_implements.pair binWString_implements).map _ _ fun v => ?_
  simp only [pairCodec, bind_assoc, pure_bind]
  rfl

def authorizationReqEquiv : SaneString × SaneString × SaneString ≃ SaneAuthorizationReq where
  toFun t := ⟨t.1, t.2.1, t.2.2⟩
  invFun r := (r.resource, r.username, r.password)
  left_inv _ := rfl
  right_inv _ := rfl

def authorizationReqFormat :
    WireFormat SaneAuthorizationReq (List SaneByte × List SaneByte × List SaneByte) :=
  (stringFormat.pair (stringFormat.pair stringFormat)).map authorizationReqEquiv (.refl _)

theorem authorizationReqFormat_lawful : authorizationReqFormat.Lawful :=
  (stringFormat_lawful.pair (stringFormat_lawful.pair stringFormat_lawful)).map _ _

theorem saneiWAuthorizationReq_implements :
    Implements ver (saneiWAuthorizationReq saneiCodecBin) authorizationReqFormat := by
  refine (binWString_implements.pair (binWString_implements.pair binWString_implements)).map _ _
    fun v => ?_
  simp only [pairCodec, bind_assoc, pure_bind]
  rfl

/-- The value of an option with its type and size before it. -/
def typedValueFormat :
    WireFormat (SaneWord × SaneWord × OptionValue) (SaneWord × SaneWord × OptionValueMsg) :=
  .keyed fun type => .keyed fun size => optionValueFormat type size

def typedValueCodec : WireCodecFunc (SaneWord × SaneWord × OptionValue) :=
  keyedCodec fun type => keyedCodec fun size => wOptionValue saneiCodecBin type size

theorem optionValueFormat_held (type size : SaneWord) :
    (optionValueFormat type size).held = optionValueHeld := rfl

theorem typedValueFormat_lawful : typedValueFormat.Lawful := by
  refine WireFormat.keyed_lawful (fun type => ?_) fun type type' => ?_
  · refine WireFormat.keyed_lawful (fun size => optionValueFormat_lawful type size)
      fun size size' => ?_
    rw [optionValueFormat_held, optionValueFormat_held]
  · funext v
    simp only [WireFormat.keyed, optionValueFormat_held]

theorem typedValue_implements : Implements ver typedValueCodec typedValueFormat :=
  .keyed fun type => .keyed fun size => wOptionValue_implements type size

/-- The condition under which the value is part of a control option request. -/
abbrev SendsValue (ver : Int) (action : SaneWord) : Prop := ver < 3 ∨ action ≠ SANE_ACTION_SET_AUTO

structure ControlOptionReqMsg where
  handle : SaneWord
  option : SaneWord
  action : SaneWord
  value : Option (SaneWord × SaneWord × OptionValueMsg)
deriving DecidableEq, Repr

def controlOptionReqEquiv :
    SaneWord × SaneWord × SaneWord × SaneWord × SaneWord × OptionValue ≃ SaneControlOptionReq where
  toFun t := ⟨t.1, t.2.1, t.2.2.1, t.2.2.2.1, t.2.2.2.2.1, t.2.2.2.2.2⟩
  invFun r := (r.handle, r.option, r.action, r.valueType, r.valueSize, r.value)
  left_inv _ := rfl
  right_inv _ := rfl

def controlOptionReqMsgEquiv :
    SaneWord × SaneWord × SaneWord × Option (SaneWord × SaneWord × OptionValueMsg) ≃
      ControlOptionReqMsg where
  toFun t := ⟨t.1, t.2.1, t.2.2.1, t.2.2.2⟩
  invFun r := (r.handle, r.option, r.action, r.value)
  left_inv _ := rfl
  right_inv _ := rfl

def controlOptionReqFormat (ver : Int) : WireFormat SaneControlOptionReq ControlOptionReqMsg :=
  (wordFormat.pair (wordFormat.pair (.keyed fun action =>
    typedValueFormat.optional (SendsValue ver action)))).map
      controlOptionReqEquiv controlOptionReqMsgEquiv

theorem controlOptionReqFormat_lawful (ver : Int) : (controlOptionReqFormat ver).Lawful :=
  (wordFormat_lawful.pair (wordFormat_lawful.pair (WireFormat.keyed_lawful
    (fun action => typedValueFormat_lawful.optional (SendsValue ver action))
      fun _ _ => rfl))).map _ _

theorem bytes_controlOptionReq (ver : Int) (handle option action : SaneWord)
    (tail : Option (SaneWord × SaneWord × OptionValueMsg)) (rest : List SaneByte) :
    (controlOptionReqFormat ver).bytes ⟨handle, option, action, tail⟩ ++ rest =
      bytesBE handle ++ (bytesBE option ++ (bytesBE action ++
        (tail.elim [] typedValueFormat.bytes ++ rest))) := by
  simp only [← List.append_assoc]
  simp only [controlOptionReqFormat, WireFormat.map, WireFormat.pair, WireFormat.keyed,
    WireFormat.optional, wordFormat, WireFormat.fixed, controlOptionReqMsgEquiv, Equiv.coe_fn_symm_mk,
    List.append_assoc]

/-- Reading the version of the protocol has no effect of its own. -/
theorem Implements.version {α μ : Type} {F : WireFormat α μ} {f : Int → WireCodecFunc α}
    (h : Implements ver (f ver) F) :
    Implements ver (fun v => do let x ← wireVersion; f x v) F where
  reads prior m hm := .version (h.reads prior m hm)
  accepts prior := .version (h.accepts prior)
  overruns prior := .version (h.overruns prior)
  writes v bs hbs := .version (h.writes v bs hbs)
  frees v hv := by
    obtain ⟨v', hv'⟩ := h.frees v hv
    exact ⟨v', .version hv'⟩

theorem saneiWControlOptionReq_implements :
    Implements ver (saneiWControlOptionReq saneiCodecBin) (controlOptionReqFormat ver) := by
  refine (binWWord_implements.pair (binWWord_implements.pair (Implements.keyed fun action =>
    Implements.version (f := fun x v =>
      if SendsValue x action then typedValueCodec v else return v)
        (typedValue_implements.optional (SendsValue ver action))))).map _ _ fun v => ?_
  simp only [saneiWControlOptionReq, pairCodec, keyedCodec, typedValueCodec, bind_assoc, pure_bind]
  refine bind_congr fun handle => bind_congr fun option => bind_congr fun action =>
    bind_congr fun x => ?_
  by_cases hx : SendsValue x action
  · simp only [if_pos hx, bind_assoc, pure_bind]
    rfl
  · simp only [if_neg hx, pure_bind]
    rfl

/-! ### Replies -/

def initReplyEquiv : SaneWord × SaneWord ≃ SaneInitReply where
  toFun t := ⟨t.1, t.2⟩
  invFun r := (r.status, r.versionCode)
  left_inv _ := rfl
  right_inv _ := rfl

def initReplyFormat : WireFormat SaneInitReply SaneInitReply :=
  (wordFormat.pair wordFormat).map initReplyEquiv initReplyEquiv

theorem initReplyFormat_lawful : initReplyFormat.Lawful :=
  (wordFormat_lawful.pair wordFormat_lawful).map _ _

theorem saneiWInitReply_implements :
    Implements ver (saneiWInitReply saneiCodecBin) initReplyFormat := by
  refine (binWWord_implements.pair binWWord_implements).map _ _ fun v => ?_
  simp only [saneiWInitReply, saneiWStatus, saneiWEnum_eq, pairCodec, bind_assoc, pure_bind]
  rfl

def devicePtrFormat : WireFormat (Ptr SaneDevice) (PtrMsg DeviceMsg) := deviceFormat.ptr

theorem devicePtrFormat_lawful : devicePtrFormat.Lawful := deviceFormat_lawful.ptr rfl

theorem saneiWDevicePtr_implements :
    Implements ver (saneiWDevicePtr saneiCodecBin) devicePtrFormat :=
  saneiWDevice_implements.ptr (by decide)

/-- The devices up to the null pointer, that one included; no list counts as empty. -/
def deviceLenOf : Ptr (List (Ptr SaneDevice)) → Option Nat
  | .null => some 0
  | p => ptrLenOf p

theorem deviceListLen_findsLength : FindsLength deviceListLen deviceLenOf where
  decode p w h := by
    simp only [deviceListLen, bind_run, wireDirection_run, h, uninitWord_run]
  found p n w h hdir := by
    cases p with
    | null =>
      cases h
      cases hw : w.direction with
      | decode => exact absurd hw hdir
      | encode => simp only [deviceListLen, bind_run, wireDirection_run, hw]; rfl
      | free => simp only [deviceListLen, bind_run, wireDirection_run, hw]; rfl
    | wild => cases h
    | block ds =>
      obtain ⟨k, hk, rfl⟩ := ptrLenOf_block_eq_some.mp h
      cases hw : w.direction with
      | decode => exact absurd hw hdir
      | encode =>
        simp only [deviceListLen, bind_run, wireDirection_run, hw, deref, hk, ofExcept, pure_run]
      | free =>
        simp only [deviceListLen, bind_run, wireDirection_run, hw, deref, hk, ofExcept, pure_run]

def getDevicesReplyEquiv : SaneWord × Ptr (List (Ptr SaneDevice)) ≃ SaneGetDevicesReply where
  toFun t := ⟨t.1, t.2⟩
  invFun r := (r.status, r.deviceList)
  left_inv _ := rfl
  right_inv _ := rfl

def getDevicesReplyFormat :
    WireFormat SaneGetDevicesReply (SaneWord × List (PtrMsg DeviceMsg)) :=
  (wordFormat.pair (devicePtrFormat.counted deviceLenOf)).map getDevicesReplyEquiv (.refl _)

theorem deviceListFormat_lawful : (devicePtrFormat.counted deviceLenOf).Lawful := by
  apply devicePtrFormat_lawful.counted rfl (by decide)
  intro ds n ms _ hn htake
  obtain ⟨k, hk, rfl⟩ := ptrLenOf_block_eq_some.mp hn
  apply ptrLenOf_block_eq_some.mpr
  refine ⟨k, ptrListLen_of_takeM ?_ hk htake, rfl⟩
  intro p m hp
  cases p with
  | null =>
    cases hp
    exact ⟨fun _ => rfl, fun _ => rfl⟩
  | wild => cases hp
  | block d =>
    obtain ⟨m', -, rfl⟩ := Option.map_eq_some_iff.mp hp
    constructor <;> intro h <;> cases h

theorem getDevicesReplyFormat_lawful : getDevicesReplyFormat.Lawful :=
  (wordFormat_lawful.pair deviceListFormat_lawful).map _ _

theorem saneiWGetDevicesReply_eq (r : SaneGetDevicesReply) :
    saneiWGetDevicesReply saneiCodecBin r = do
      let len ← deviceListLen r.deviceList
      let status ← binWWord r.status
      let a ← saneiWArray binPrims (saneiWDevicePtr saneiCodecBin) ⟨len, r.deviceList⟩
      return SaneGetDevicesReply.mk status a.v := by
  simp only [saneiWGetDevicesReply, saneiWStatus, saneiWEnum_eq]
  rfl

/-- The length is found before the status is transferred. -/
theorem saneiWGetDevicesReply_implements :
    Implements ver (saneiWGetDevicesReply saneiCodecBin) getDevicesReplyFormat where
  reads prior m hm := by
    rw [saneiWGetDevicesReply_eq]
    exact deviceListLen_findsLength.reads fun junk => .bind (binWWord_reads prior.status m.1)
      (.map (saneiWArray_reads saneiWDevicePtr_implements ⟨junk, prior.deviceList⟩ m.2 hm.2)
        fun a => SaneGetDevicesReply.mk m.1 a.v)
  accepts prior := by
    rw [saneiWGetDevicesReply_eq]
    refine deviceListLen_findsLength.accepts fun junk => (binWWord_accepts prior.status).bind
      (fun status => (saneiWArray_accepts saneiWDevicePtr_implements
        ⟨junk, prior.deviceList⟩).map (fun a => SaneGetDevicesReply.mk status a.v)
          (Q := fun bs δ r => ∃ ms, devicePtrFormat.array.Valid ms ∧
            bs = devicePtrFormat.array.bytes ms ∧
            r = getDevicesReplyFormat.value prior (status, ms) ∧
            δ = devicePtrFormat.array.memory ms) ?_) ?_
    · rintro bs δ a ⟨ms, hms, rfl, rfl, rfl⟩
      exact ⟨ms, hms, rfl, rfl, rfl⟩
    · rintro status bs₁ bs₂ δ₁ δ₂ r ⟨rfl, rfl⟩ ⟨ms, hms, rfl, rfl, rfl⟩
      exact ⟨(status, ms), ⟨trivial, hms⟩, rfl, rfl, rfl⟩
  overruns prior := by
    rw [saneiWGetDevicesReply_eq]
    refine deviceListLen_findsLength.overruns fun junk =>
      (binWWord_overruns prior.status (O := fun _ _ => False)).bind (binWWord_accepts prior.status)
        (fun status => (saneiWArray_overruns saneiWDevicePtr_implements
          ⟨junk, prior.deviceList⟩).map fun a => SaneGetDevicesReply.mk status a.v)
        (fun _ _ => False.elim) ?_
    rintro status bs δ a s ⟨rfl, rfl⟩ - h
    exact .inr ⟨status, s, trivial, rfl, h⟩
  writes r bs h := by
    rw [saneiWGetDevicesReply_eq]
    have hmap : ((devicePtrFormat.counted deviceLenOf).encoding r.deviceList).map
        (bytesBE r.status ++ ·) = some bs := h
    obtain ⟨bs₂, h₂, rfl⟩ := Option.map_eq_some_iff.mp hmap
    obtain ⟨n, hn, henc⟩ := Option.bind_eq_some_iff.mp h₂
    refine deviceListLen_findsLength.writes hn (.cast (.bind (binWWord_writes r.status)
      (.map (countedArray_writes saneiWDevicePtr_implements hn henc)
        fun a => SaneGetDevicesReply.mk r.status a.v)) rfl rfl fun hok => ⟨trivial, ?_⟩)
    simpa [getDevicesReplyFormat, getDevicesReplyEquiv, WireFormat.map, WireFormat.pair, wordFormat,
      WireFormat.fixed] using hok
  frees r h := by
    rw [saneiWGetDevicesReply_eq]
    obtain ⟨-, n, hn, hcons⟩ := h
    obtain ⟨a, ha⟩ := saneiWArray_frees (@saneiWDevicePtr_implements ver) _ hcons
    exact ⟨_, deviceListLen_findsLength.frees hn (.bind (binWWord_frees r.status)
      (.map ha fun a => SaneGetDevicesReply.mk r.status a.v))⟩

def openReplyEquiv : SaneWord × SaneWord × SaneString ≃ SaneOpenReply where
  toFun t := ⟨t.1, t.2.1, t.2.2⟩
  invFun r := (r.status, r.handle, r.resourceToAuthorize)
  left_inv _ := rfl
  right_inv _ := rfl

def openReplyFormat : WireFormat SaneOpenReply (SaneWord × SaneWord × List SaneByte) :=
  (wordFormat.pair (wordFormat.pair stringFormat)).map openReplyEquiv (.refl _)

theorem openReplyFormat_lawful : openReplyFormat.Lawful :=
  (wordFormat_lawful.pair (wordFormat_lawful.pair stringFormat_lawful)).map _ _

theorem saneiWOpenReply_implements :
    Implements ver (saneiWOpenReply saneiCodecBin) openReplyFormat := by
  refine (binWWord_implements.pair (binWWord_implements.pair binWString_implements)).map _ _
    fun v => ?_
  simp only [saneiWOpenReply, saneiWStatus, saneiWEnum_eq, pairCodec, bind_assoc, pure_bind]
  rfl

structure ControlOptionReplyMsg where
  status : SaneWord
  info : SaneWord
  value : SaneWord × SaneWord × OptionValueMsg
  resourceToAuthorize : List SaneByte
deriving DecidableEq, Repr

def controlOptionReplyEquiv :
    SaneWord × SaneWord × (SaneWord × SaneWord × OptionValue) × SaneString ≃
      SaneControlOptionReply where
  toFun t := ⟨t.1, t.2.1, t.2.2.1.1, t.2.2.1.2.1, t.2.2.1.2.2, t.2.2.2⟩
  invFun r := (r.status, r.info, (r.valueType, r.valueSize, r.value), r.resourceToAuthorize)
  left_inv _ := rfl
  right_inv _ := rfl

def controlOptionReplyMsgEquiv :
    SaneWord × SaneWord × (SaneWord × SaneWord × OptionValueMsg) × List SaneByte ≃
      ControlOptionReplyMsg where
  toFun t := ⟨t.1, t.2.1, t.2.2.1, t.2.2.2⟩
  invFun r := (r.status, r.info, r.value, r.resourceToAuthorize)
  left_inv _ := rfl
  right_inv _ := rfl

def controlOptionReplyFormat : WireFormat SaneControlOptionReply ControlOptionReplyMsg :=
  (wordFormat.pair (wordFormat.pair (typedValueFormat.pair stringFormat))).map
    controlOptionReplyEquiv controlOptionReplyMsgEquiv

theorem controlOptionReplyFormat_lawful : controlOptionReplyFormat.Lawful :=
  (wordFormat_lawful.pair (wordFormat_lawful.pair
    (typedValueFormat_lawful.pair stringFormat_lawful))).map _ _

theorem saneiWControlOptionReply_implements :
    Implements ver (saneiWControlOptionReply saneiCodecBin) controlOptionReplyFormat := by
  refine (binWWord_implements.pair (binWWord_implements.pair
    (typedValue_implements.pair binWString_implements))).map _ _ fun v => ?_
  simp only [saneiWControlOptionReply, saneiWStatus, saneiWEnum_eq, pairCodec, keyedCodec,
    typedValueCodec, bind_assoc, pure_bind]
  rfl

def getParametersReplyEquiv : SaneWord × SaneParameters ≃ SaneGetParametersReply where
  toFun t := ⟨t.1, t.2⟩
  invFun r := (r.status, r.params)
  left_inv _ := rfl
  right_inv _ := rfl

def getParametersReplyFormat : WireFormat SaneGetParametersReply SaneGetParametersReply :=
  (wordFormat.pair parametersFormat).map getParametersReplyEquiv getParametersReplyEquiv

theorem getParametersReplyFormat_lawful : getParametersReplyFormat.Lawful :=
  (wordFormat_lawful.pair parametersFormat_lawful).map _ _

theorem saneiWGetParametersReply_implements :
    Implements ver (saneiWGetParametersReply saneiCodecBin) getParametersReplyFormat := by
  refine (binWWord_implements.pair saneiWParameters_implements).map _ _ fun v => ?_
  simp only [saneiWGetParametersReply, saneiWStatus, saneiWEnum_eq, pairCodec, bind_assoc,
    pure_bind]
  rfl

def startReplyEquiv : SaneWord × SaneWord × SaneWord × SaneString ≃ SaneStartReply where
  toFun t := ⟨t.1, t.2.1, t.2.2.1, t.2.2.2⟩
  invFun r := (r.status, r.port, r.byteOrder, r.resourceToAuthorize)
  left_inv _ := rfl
  right_inv _ := rfl

def startReplyFormat :
    WireFormat SaneStartReply (SaneWord × SaneWord × SaneWord × List SaneByte) :=
  (wordFormat.pair (wordFormat.pair (wordFormat.pair stringFormat))).map startReplyEquiv (.refl _)

theorem startReplyFormat_lawful : startReplyFormat.Lawful :=
  (wordFormat_lawful.pair (wordFormat_lawful.pair
    (wordFormat_lawful.pair stringFormat_lawful))).map _ _

theorem saneiWStartReply_implements :
    Implements ver (saneiWStartReply saneiCodecBin) startReplyFormat := by
  refine (binWWord_implements.pair (binWWord_implements.pair (binWWord_implements.pair
    binWString_implements))).map _ _ fun v => ?_
  simp only [saneiWStartReply, saneiWStatus, saneiWEnum_eq, pairCodec, bind_assoc, pure_bind]
  rfl

end SaneBackends
