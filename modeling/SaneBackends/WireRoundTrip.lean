import SaneBackends.SaneImplements

/-!
# The round trip through the wire

The types that can be built from the wire functions, and the theorem about all of
them: what is encoded and flushed is decoded to an equal value, however the bytes
are cut into writes and reads, and the decoder stops exactly behind them.  Two
values are equal when they have the same content, which is the data without its
layout in memory.
-/

namespace SaneBackends

open FaultState WordBytes

/-- The types of values built from the functions of `sanei_wire.c`. -/
inductive WireType where
  | byte
  | word
  | string
  | range
  | device
  | optionDescriptor
  | parameters
  | array (t : WireType)
  | ptr (t : WireType)
deriving DecidableEq, Repr

namespace WireType

/-- A value of the type in memory. -/
@[reducible] def Val : WireType → Type
  | .byte => SaneByte
  | .word => SaneWord
  | .string => SaneString
  | .range => SaneRange
  | .device => SaneDevice
  | .optionDescriptor => SaneOptionDescriptor
  | .parameters => SaneParameters
  | .array t => SaneArray t.Val
  | .ptr t => Ptr t.Val

/-- The data of a value, as it is sent. -/
@[reducible] def Msg : WireType → Type
  | .byte => SaneByte
  | .word => SaneWord
  | .string => List SaneByte
  | .range => SaneRange
  | .device => DeviceMsg
  | .optionDescriptor => OptionDescriptorMsg
  | .parameters => SaneParameters
  | .array t => List t.Msg
  | .ptr t => PtrMsg t.Msg

instance valCType : (t : WireType) → CType t.Val
  | .byte => inferInstanceAs (CType SaneByte)
  | .word => inferInstanceAs (CType SaneWord)
  | .string => inferInstanceAs (CType SaneString)
  | .range => inferInstanceAs (CType SaneRange)
  | .device => inferInstanceAs (CType SaneDevice)
  | .optionDescriptor => inferInstanceAs (CType SaneOptionDescriptor)
  | .parameters => inferInstanceAs (CType SaneParameters)
  | .array t => inferInstanceAs (CType (SaneArray t.Val))
  | .ptr t => inferInstanceAs (CType (Ptr t.Val))

/-- The wire function for the type. -/
def wValue (codec : Codec) : (t : WireType) → WireCodecFunc t.Val
  | .byte => saneiWByte codec.toCodecPrims
  | .word => saneiWWord codec.toCodecPrims
  | .string => saneiWString codec
  | .range => saneiWRange codec
  | .device => saneiWDevice codec
  | .optionDescriptor => saneiWOptionDescriptor codec
  | .parameters => saneiWParameters codec
  | .array t => saneiWArray codec.toCodecPrims (wValue codec t)
  | .ptr t => saneiWPtr codec.toCodecPrims (wValue codec t)

def format : (t : WireType) → WireFormat t.Val t.Msg
  | .byte => byteFormat
  | .word => wordFormat
  | .string => stringFormat
  | .range => rangeFormat
  | .device => deviceFormat
  | .optionDescriptor => optionDescriptorFormat
  | .parameters => parametersFormat
  | .array t => t.format.array
  | .ptr t => t.format.ptr

/-- A block that has just been allocated owns nothing. -/
theorem held_zero (t : WireType) : t.format.held CType.zero = 0 := by cases t <;> rfl

theorem one_le_sizeof (t : WireType) : 1 ≤ CType.sizeof t.Val := by
  cases t <;> first | exact le_refl 1 | exact Nat.le_add_left 1 _

theorem sizeof_le_max (t : WireType) : CType.sizeof t.Val ≤ MAX_MEM := by
  have hmax : MAX_MEM = 1048576 := rfl
  cases t <;> simp only [CType.sizeof, hmax] <;> omega

theorem format_lawful (t : WireType) : t.format.Lawful := by
  induction t with
  | byte => exact byteFormat_lawful
  | word => exact wordFormat_lawful
  | string => exact stringFormat_lawful
  | range => exact rangeFormat_lawful
  | device => exact deviceFormat_lawful
  | optionDescriptor => exact optionDescriptorFormat_lawful
  | parameters => exact parametersFormat_lawful
  | array t ih => exact ih.array t.held_zero t.one_le_sizeof
  | ptr t ih => exact ih.ptr t.held_zero

theorem wValue_implements (ver : Int) (t : WireType) :
    Implements ver (wValue saneiCodecBin t) t.format := by
  induction t with
  | byte => exact binWByte_implements
  | word => exact binWWord_implements
  | string => exact binWString_implements
  | range => exact saneiWRange_implements
  | device => exact saneiWDevice_implements
  | optionDescriptor => exact saneiWOptionDescriptor_implements
  | parameters => exact saneiWParameters_implements
  | array t ih => exact ih.array
  | ptr t ih => exact ih.ptr t.sizeof_le_max

end WireType

/-! ### Flushing -/

/-- A flush while encoding drains the buffer, whatever its fill. -/
theorem flush_encode {w : Wire} (hdir : w.direction = .encode) (hb : w.buffer.Ok)
    (hs : w.status = 0) : flush w = .ok ((), w.drain) := by
  have hend := hb.endp_le
  have hfit : ¬ w.buffer.curr + (w.buffer.size + 1) ≤ w.buffer.endp := by omega
  have hspace : w.space (w.buffer.size + 1) = w.drain := by
    simp only [Wire.space, hs, ne_eq, not_true_eq_false, ↓reduceIte, hfit, hdir]
  simp only [flush, bind_run, wireDirection_run, hdir, get_run, saneiWSpace_run, hspace]

/-- An encoder and a flush have sent the whole encoding, or the status says otherwise. -/
theorem EncodesAs.flushed {β : Type} {ver : Int} {m : WireM β} {bs : List SaneByte} {b : β}
    {ok : Prop} (h : EncodesAs ver m bs b ok) {w : Wire} (hw : w.InEncode ver)
    (hs : w.status = 0) :
    ∃ w', (do let _ ← m; flush : WireM Unit) w = .ok ((), w') ∧
      (w'.status = 0 → w'.io.sent = w.stream ++ bs) ∧
      (ok → WritesAccept w.io.writes → w'.status = 0) := by
  obtain ⟨w₁, hrun₁, hstep⟩ := h.good w hw hs
  rcases hstep.out with ⟨hs₁, -, hstream₁⟩ | ⟨hbad, -⟩
  · obtain ⟨-, -, hdrain, haccept⟩ := w₁.drain_keeps hstep.buf hs₁
    refine ⟨w₁.drain, ?_, fun hs₂ => ?_, fun hok hacc => (haccept (hstep.accepts hok hacc).2).1⟩
    · rw [bind_of_ok hrun₁, flush_encode hstep.dir hstep.buf hs₁]
    · rcases hdrain with ⟨-, -, -, hsent⟩ | ⟨hbad, -⟩
      · exact hsent.trans hstream₁
      · exact absurd hs₂ hbad
  · refine ⟨w₁, ?_, fun hs₁ => absurd hs₁ hbad, fun hok hacc => (hstep.accepts hok hacc).1⟩
    simp only [bind_of_ok hrun₁, flush, bind_run, wireDirection_run, hstep.dir, get_run,
      saneiWSpace_run, Wire.space_of_bad hbad]

/-! ### The round trip -/

/-- Encoding a value and flushing the buffer. -/
def encodeAndFlush (t : WireType) (v : t.Val) : WireM Unit := do
  let _ ← t.wValue saneiCodecBin v
  flush

theorem wire_round_trip (t : WireType) (v : t.Val) (a : t.Msg) (hv : t.format.content v = some a)
    (hmem : t.format.memory a ≤ MAX_MEM) (ver : Int) (w : Wire) (hw : w.InEncode ver)
    (hs : w.status = 0) (hacc : WritesAccept w.io.writes) :
    ∃ bs w', encodeAndFlush t v w = .ok ((), w') ∧ w'.status = 0 ∧ w'.io.sent = w.stream ++ bs ∧
      ∀ (ver' : Int) (d : Wire) (prior : t.Val) (rest : List SaneByte), d.Ready ver' →
        d.pending = bs ++ rest → t.format.held prior = 0 → 0 ≤ d.allocatedMemory →
        d.allocatedMemory + t.format.memory a ≤ MAX_MEM →
        ∃ v' d', t.wValue saneiCodecBin prior d = .ok (v', d') ∧ t.format.content v' = some a ∧
          d'.status = 0 ∧ d'.pending = rest := by
  have hlawful := t.format_lawful
  have henc := (t.wValue_implements ver).writes v _ (hlawful.encodes v a hv hmem)
  obtain ⟨w', hrun', hsent, haccept⟩ := henc.flushed hw hs
  have hs' := haccept (by rw [hv]; rfl) hacc
  refine ⟨t.format.bytes a, w', hrun', hs', hsent hs', ?_⟩
  intro ver' d prior rest hd hp hprior h0 hmax
  obtain ⟨d', hrun, hd', hp', -⟩ := (t.wValue_implements ver').reads prior a
    (hlawful.valid v a hv hmem) d rest hd hp h0 hmax
  exact ⟨_, d', hrun, hlawful.again prior v a hv hprior, hd'.good, hp'⟩

/-- A wire that has just been turned to `WIRE_DECODE`. -/
def decodingWire (inbound : List SaneByte) (reads : List ReadResult) : Wire :=
  { saneiWInit ⟨[], inbound, [], reads⟩ [] 0 with
    direction := .decode
    buffer := ⟨8192, List.replicate 8192 0, 0, 0⟩ }

theorem decodingWire_ready (inbound : List SaneByte) {reads : List ReadResult}
    (hreads : ReadsDeliver reads) : (decodingWire inbound reads).Ready 0 where
  dir := rfl
  version := rfl
  buf := ⟨le_refl 0, Nat.zero_le _, List.length_replicate, show 4 ≤ 8192 by decide⟩
  good := rfl
  reads := hreads
  mallocs _ h := absurd h List.not_mem_nil

theorem saneiWInit_inEncode (io : WireIo) (mallocs : List Bool) (junk : SaneWord) :
    (saneiWInit io mallocs junk).InEncode 0 :=
  ⟨rfl, rfl, ⟨Nat.zero_le _, Nat.le_refl _, List.length_replicate, show 4 ≤ 8192 by decide⟩, rfl⟩

/-- A list of one option, whose value must be one of two words. -/
def oneOption : SaneArray (Ptr SaneOptionDescriptor) :=
  ⟨1, .block [.block
    { name := .block [114, 101, 115, 0], title := .null, desc := .block [0],
      type := SANE_TYPE_INT, unit := 0, size := 4, cap := 5,
      constraintType := SANE_CONSTRAINT_WORD_LIST, constraint := .wordList [2, 75, 300] }]⟩

def oneOptionMsg : List (PtrMsg OptionDescriptorMsg) :=
  [.value ⟨[114, 101, 115, 0], [], [0], SANE_TYPE_INT, 0, 4, 5, SANE_CONSTRAINT_WORD_LIST,
    .wordList [2, 75, 300]⟩]

/-- It goes through a peer that takes three bytes at a time, and comes back from one
    that gives one byte and then five, with one more byte behind. -/
theorem wire_round_trip_oneOption :
    ∃ bs w', encodeAndFlush (.array (.ptr .optionDescriptor)) oneOption
        (saneiWInit ⟨[], [], [.accept 3, .accept 3], []⟩ [] 0) = .ok ((), w') ∧
      w'.status = 0 ∧ w'.io.sent = bs ∧
      ∃ v' d', (WireType.array (.ptr .optionDescriptor)).wValue saneiCodecBin ⟨0, .null⟩
          (decodingWire (bs ++ [7]) [.deliver 1, .deliver 5]) = .ok (v', d') ∧
        (WireType.array (.ptr .optionDescriptor)).format.content v' = some oneOptionMsg ∧
        d'.status = 0 ∧ d'.pending = [7] := by
  obtain ⟨bs, w', hrun, hs, hsent, hdec⟩ := wire_round_trip (.array (.ptr .optionDescriptor))
    oneOption oneOptionMsg (by decide) (by decide) 0
    (saneiWInit ⟨[], [], [.accept 3, .accept 3], []⟩ [] 0) (saneiWInit_inEncode _ _ _) rfl
    (show WritesAccept [.accept 3, .accept 3] by simp [WritesAccept])
  have hready := @decodingWire_ready (bs ++ [7]) [.deliver 1, .deliver 5]
    (by simp [ReadsDeliver])
  have hmem : (0 : Int) + ((WireType.array (.ptr .optionDescriptor)).format.memory oneOptionMsg : Nat)
      ≤ MAX_MEM := by decide
  exact ⟨bs, w', hrun, hs, hsent, hdec 0 _ ⟨0, .null⟩ [7] hready rfl rfl (le_refl _) hmem⟩

end SaneBackends
