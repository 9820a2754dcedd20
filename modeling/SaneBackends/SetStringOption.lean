import SaneBackends.ConstrainValue
import SaneBackends.NetFormats
import SaneBackends.WireParsing
import SaneBackends.WireRoundTrip

/-!
# Setting a string option over the network

The net backend sends a string without the room behind it, `saned` decodes it into a
block of exactly its length, and `sanei_constrain_value` may put a longer string from
the list in its place.  The three together leave the block exactly when the string
abbreviates one string of the list and is equal to none.
-/

namespace SaneBackends

open FaultState WordBytes SignedWords

/-! ### The request of the net backend -/

/-- `value_size` in `sane_control_option` of the net backend, for `SANE_ACTION_SET_VALUE`. -/
def setValueSize (opt : SaneOptionDescriptor) (value : OptionValue) : Except Fault SaneWord :=
  if IsVoidType opt.type then .ok 0
  else if opt.type = SANE_TYPE_STRING then do
    -- strings can be smaller than the size
    let n ← followPtr value.asChars >>= strlen
    if (BitVec.ofNat 32 n + 1).slt opt.size then return BitVec.ofNat 32 (n + 1)
    else return opt.size
  else .ok opt.size

/-- The request that `sane_control_option` of the net backend makes for
    `SANE_ACTION_SET_VALUE`. -/
def setValueReq (handle option : SaneWord) (opt : SaneOptionDescriptor) (value : OptionValue) :
    Except Fault SaneControlOptionReq := do
  let valueSize ← setValueSize opt value
  return ⟨handle, option, SANE_ACTION_SET_VALUE, opt.type, valueSize, value⟩

def sendControlOptionReq (req : SaneControlOptionReq) : WireM Unit := do
  let _ ← saneiWControlOptionReq saneiCodecBin req
  flush

/-- A string of less than the size of the option is sent with its NUL and nothing else. -/
theorem setValueReq_string {handle option : SaneWord} {opt : SaneOptionDescriptor}
    {buf : List SaneByte} {req : SaneControlOptionReq} (htype : opt.type = SANE_TYPE_STRING)
    (hsize : (cString buf).length < opt.size.toInt)
    (hreq : setValueReq handle option opt (.chars buf) = .ok req) :
    req = ⟨handle, option, SANE_ACTION_SET_VALUE, SANE_TYPE_STRING,
      BitVec.ofNat 32 ((cString buf).length + 1), .chars buf⟩ := by
  have hvoid : ¬ IsVoidType opt.type := by rw [htype]; decide
  have hbound := (toInt_bounds opt.size).2
  obtain ⟨size, hvalueSize, hend⟩ := bind_eq_ok.mp hreq
  cases hend
  rw [setValueSize, if_neg hvoid, if_pos htype] at hvalueSize
  obtain ⟨n, hn, hvalueSize⟩ := bind_eq_ok.mp hvalueSize
  have hlen : n = (cString buf).length := (strlen_eq_ok.mp hn).2
  subst hlen
  rw [htype]
  split_ifs at hvalueSize with hshort
  · cases hvalueSize
    rfl
  · -- the string and its NUL fill the option exactly
    cases hvalueSize
    have hsucc := (ofNat_of_lt (n := (cString buf).length + 1) (by omega)).2
    rw [BitVec.slt_iff_toInt_lt, show BitVec.ofNat 32 (cString buf).length + 1 = _ from
      (BitVec.ofNat_add ..).symm, hsucc] at hshort
    have hsize' : opt.size = BitVec.ofNat 32 ((cString buf).length + 1) := by
      apply BitVec.eq_of_toInt_eq
      rw [hsucc]
      push_cast
      omega
    rw [hsize']

/-! ### What arrives at `saned` -/

/-- The first `n` bytes of a block are sent behind their number. -/
theorem byteArray_encoding {buf : List SaneByte} {n : Nat} (hpos : 0 < n) (hlen : n ≤ buf.length)
    (hn : n < 2 ^ 31) :
    byteFormat.array.encoding ⟨BitVec.ofNat 32 n, .block buf⟩ =
      some (bytesBE (BitVec.ofNat 32 n) ++ buf.take n) := by
  have hint := (ofNat_of_lt hn).2
  have htake : takeM byteFormat.encoding n buf = some ((buf.take n).map fun b => [b]) :=
    takeM_of_takeM (takeM_some hlen) fun b c _ h => by cases h; rfl
  have hflat : ∀ bs : List SaneByte, (bs.map fun b => [b]).flatten = bs := by
    intro bs
    induction bs with
    | nil => rfl
    | cons b bs ih => simp [ih]
  change arrayEncoding byteFormat.encoding _ = _
  rw [arrayEncoding, if_neg (by simp only [hint]; omega)]
  simp only [hint, Int.toNat_natCast, htake, Option.map_some, hflat]

def setStringBytes (handle option : SaneWord) (buf : List SaneByte) : List SaneByte :=
  let size := bytesBE (BitVec.ofNat 32 ((cString buf).length + 1))
  bytesBE handle ++ (bytesBE option ++ (bytesBE SANE_ACTION_SET_VALUE ++
    (bytesBE SANE_TYPE_STRING ++ (size ++ (size ++ (cString buf ++ [0]))))))

theorem setString_encoding {ver : Int} {handle option : SaneWord} {buf : List SaneByte}
    (hbuf : 0 ∈ buf) (hsize : (cString buf).length + 1 < 2 ^ 31) :
    (controlOptionReqFormat ver).encoding ⟨handle, option, SANE_ACTION_SET_VALUE,
      SANE_TYPE_STRING, BitVec.ofNat 32 ((cString buf).length + 1), .chars buf⟩ =
        some (setStringBytes handle option buf) := by
  have hlen := (strlen_take (strlen_of_mem hbuf)).2.2
  have hvalue : (optionValueFormat SANE_TYPE_STRING
      (BitVec.ofNat 32 ((cString buf).length + 1))).encoding (.chars buf) =
        some (bytesBE (BitVec.ofNat 32 ((cString buf).length + 1)) ++ (cString buf ++ [0])) := by
    rw [← take_length_cString hbuf]
    exact byteArray_encoding (Nat.succ_pos _) hlen hsize
  have hsends : SendsValue ver SANE_ACTION_SET_VALUE := .inr (by decide)
  simp only [controlOptionReqFormat, WireFormat.map, WireFormat.pair, WireFormat.keyed,
    WireFormat.optional, controlOptionReqEquiv, Equiv.coe_fn_symm_mk, wordFormat, WireFormat.fixed,
    if_pos hsends, typedValueFormat, hvalue, Option.map_some, Option.bind_some]
  rfl

/-- No other message has these bytes at its beginning. -/
theorem setString_message {ver : Int} {handle option : SaneWord} {buf rest rest' : List SaneByte}
    {m : ControlOptionReqMsg} (hm : (controlOptionReqFormat ver).Valid m)
    (hlen : (cString buf).length + 1 < 2 ^ 31)
    (h : setStringBytes handle option buf ++ rest = (controlOptionReqFormat ver).bytes m ++ rest') :
    ∃ type size, m.value = some (type, size, .chars (cString buf ++ [0])) := by
  obtain ⟨handle', option', action, tail⟩ := m
  obtain ⟨-, -, hm⟩ := hm
  rw [bytes_controlOptionReq, setStringBytes] at h
  simp only [List.append_assoc] at h
  obtain ⟨-, hoption⟩ := append_bytesBE_inj h
  obtain ⟨-, haction⟩ := append_bytesBE_inj hoption
  obtain ⟨hset, htail⟩ := append_bytesBE_inj haction
  cases tail with
  | none =>
    have hno : ¬ SendsValue ver action := hm
    rw [← hset] at hno
    exact absurd (.inr (by decide)) hno
  | some value =>
    obtain ⟨type, size, v⟩ := value
    obtain ⟨-, hv⟩ : _ ∧ (optionValueFormat type size).Valid v := hm
    simp only [Option.elim_some, typedValueFormat, WireFormat.keyed, List.append_assoc] at htail
    obtain ⟨htype, hrest⟩ := append_bytesBE_inj htail
    obtain ⟨hsize, hchars⟩ := append_bytesBE_inj hrest
    subst htype hsize
    cases v with
    | words ws => exact absurd hv.1 not_isWordType_string
    | voids us => exact absurd rfl (not_isWordType_of_void hv.1).2
    | chars cs =>
      obtain ⟨-, hmax, -⟩ := hv
      have hbytes : (optionValueFormat SANE_TYPE_STRING
          (BitVec.ofNat 32 ((cString buf).length + 1))).bytes (.chars cs) =
            bytesBE (BitVec.ofNat 32 cs.length) ++ cs := bytes_stringFormat cs
      rw [hbytes, List.append_assoc] at hchars
      obtain ⟨hword, hstring⟩ := append_bytesBE_inj hchars
      have hcs : (cString buf ++ [0]).length = cs.length := by
        rw [List.length_append, List.length_singleton, ← (ofNat_of_lt hlen).1, hword,
          (ofNat_of_le_max hmax).1]
      rw [← List.append_assoc] at hstring
      obtain ⟨heq, -⟩ := List.append_inj hstring hcs
      exact ⟨_, _, by rw [heq]⟩

/-- Whoever decodes the request finds the string with its NUL, in a block of that size. -/
theorem received_string {ver : Int} {handle option : SaneWord} {opt : SaneOptionDescriptor}
    {buf bs rest : List SaneByte} {req prior req' : SaneControlOptionReq} {w w₁ d d' : Wire}
    (htype : opt.type = SANE_TYPE_STRING) (hbuf : 0 ∈ buf)
    (hsize : (cString buf).length < opt.size.toInt)
    (hreq : setValueReq handle option opt (.chars buf) = .ok req)
    (hw : w.InEncode ver) (hs : w.status = 0)
    (hsend : sendControlOptionReq req w = .ok ((), w₁)) (hs₁ : w₁.status = 0)
    (hsent : w₁.io.sent = w.stream ++ bs) (hd : d.InDecode ver) (hpend : d.pending = bs ++ rest)
    (hrecv : saneiWControlOptionReq saneiCodecBin prior d = .ok (req', d'))
    (hs' : d'.status = 0) : req'.value = .chars (cString buf ++ [0]) := by
  have hbound := (toInt_bounds opt.size).2
  have hlen : (cString buf).length + 1 < 2 ^ 31 := by omega
  rw [setValueReq_string htype hsize hreq] at hsend
  have henc := @setString_encoding ver handle option _ hbuf hlen
  obtain ⟨w₂, hrun, hall, -⟩ :=
    ((saneiWControlOptionReq_implements.writes _ _ henc).flushed hw hs)
  rw [sendControlOptionReq, hrun] at hsend
  cases hsend
  have hbs : bs = setStringBytes handle option buf :=
    List.append_cancel_left (hsent.symm.trans (hall hs₁))
  -- what the decoder accepts has the same words at its beginning
  have hstep := saneiWControlOptionReq_implements.accepts prior d req' d' hd hrecv
  obtain ⟨cs, δ, hcs, -, -, hgood⟩ := hstep.moved
  obtain ⟨⟨handle', option', action, tail⟩, hm, rfl, rfl, -⟩ := (hgood hs').2
  rw [hpend, hbs] at hcs
  obtain ⟨type, size, rfl⟩ := setString_message hm hlen hcs
  cases hstr : cString buf <;> rfl

/-! ### What is stored into it -/

/-- The string the value is replaced by is not longer than the value: there is a string
    of the list that is equal to it apart from case, or not exactly one that begins
    with it. -/
def ReplacedInPlace (blocks : List (List SaneByte)) (value : List SaneByte) : Prop :=
  (∃ s ∈ blocks, EqualNoCase value s) ∨ blocks.countP (AbbreviatesNoCase value ·) ≠ 1

instance (blocks : List (List SaneByte)) (value : List SaneByte) :
    Decidable (ReplacedInPlace blocks value) := inferInstanceAs (Decidable (_ ∨ _))

theorem length_of_equalNoCase {value s : List SaneByte} (h : EqualNoCase value s) :
    (cString value).length = (cString s).length := by
  simpa using congrArg List.length h

theorem length_of_abbreviates {value s : List SaneByte} (h : AbbreviatesNoCase value s)
    (hne : ¬ EqualNoCase value s) : (cString value).length < (cString s).length := by
  have hle : (cString value).length ≤ (cString s).length := by simpa using h.length_le
  refine lt_of_le_of_ne hle fun hlen => hne ?_
  exact h.eq_of_length (by simpa using hlen)

/-- In a block that ends with the string, storing stays inside exactly if the string is
    replaced in place. -/
theorem constrainString_fits {opt : SaneOptionDescriptor} {blocks : List (List SaneByte)}
    {value : List SaneByte} (info : Option SaneWord)
    (htype : opt.constraintType = SANE_CONSTRAINT_STRING_LIST)
    (hss : opt.constraint = .stringList (stringBlocks blocks)) (hblocks : ∀ s ∈ blocks, 0 ∈ s)
    (hv : 0 ∈ value) (hlen : value.length = (cString value).length + 1) :
    (∃ r, saneiConstrainValue opt value info = .ok r) ↔ ReplacedInPlace blocks value := by
  have h₁ : opt.constraintType ≠ SANE_CONSTRAINT_RANGE := by rw [htype]; decide
  have h₂ : opt.constraintType ≠ SANE_CONSTRAINT_WORD_LIST := by rw [htype]; decide
  rw [saneiConstrainValue, if_neg h₁, if_neg h₂, if_pos htype, strlen_of_mem hv, hss]
  simp only [SaneConstraint.asStringList, followPtr, bind, Except.bind]
  rcases matchStrings_spec hv hblocks 0 none with
    ⟨s, hs, heq, hexact⟩ | ⟨hnone, last', hcounted, hlast⟩
  · refine ⟨fun _ => .inl ⟨s, hs, heq⟩, fun _ => ?_⟩
    have hfits : (cString s).length + 1 ≤ value.length := by
      rw [hlen, length_of_equalNoCase heq]
    rw [hexact]
    simp only [strcmpEqual_eq hv (hblocks s hs), strcpy_eq (hblocks s hs), if_pos hfits]
    split_ifs <;> exact ⟨_, rfl⟩
  · have hinplace : ReplacedInPlace blocks value ↔
        blocks.countP (AbbreviatesNoCase value ·) ≠ 1 :=
      or_iff_right fun ⟨s, hs, heq⟩ => hnone s hs heq
    rw [hcounted, hinplace, Nat.zero_add]
    simp only
    split_ifs with hmany hone
    · exact ⟨fun _ => by omega, fun _ => ⟨_, rfl⟩⟩
    · rcases hlast with ⟨hzero, -⟩ | ⟨s, hs, habbr, rfl⟩
      · omega
      · have hlong : ¬ (cString s).length + 1 ≤ value.length := by
          have := length_of_abbreviates habbr (hnone s hs)
          omega
        simp only [strcpy_eq (hblocks s hs), if_neg hlong]
        simp [hone]
    · exact ⟨fun _ => hone, fun _ => ⟨_, rfl⟩⟩

/-- Setting a string option: from the frontend's string to the list entry in the block
    that `saned` has decoded. -/
theorem set_string_fits {ver : Int} {handle option : SaneWord} {opt : SaneOptionDescriptor}
    {blocks : List (List SaneByte)} {buf bs rest : List SaneByte} {info : Option SaneWord}
    {req prior req' : SaneControlOptionReq} {w w₁ d d' : Wire}
    (htype : opt.type = SANE_TYPE_STRING)
    (hlist : opt.constraintType = SANE_CONSTRAINT_STRING_LIST)
    (hss : opt.constraint = .stringList (stringBlocks blocks)) (hblocks : ∀ s ∈ blocks, 0 ∈ s)
    (hbuf : 0 ∈ buf) (hsize : (cString buf).length < opt.size.toInt)
    (hreq : setValueReq handle option opt (.chars buf) = .ok req)
    (hw : w.InEncode ver) (hs : w.status = 0)
    (hsend : sendControlOptionReq req w = .ok ((), w₁)) (hs₁ : w₁.status = 0)
    (hsent : w₁.io.sent = w.stream ++ bs) (hd : d.InDecode ver) (hpend : d.pending = bs ++ rest)
    (hrecv : saneiWControlOptionReq saneiCodecBin prior d = .ok (req', d'))
    (hs' : d'.status = 0) :
    ∃ value, req'.value = .chars value ∧
      ((∃ r, saneiConstrainValue opt value info = .ok r) ↔ ReplacedInPlace blocks buf) := by
  refine ⟨cString buf ++ [0], received_string htype hbuf hsize hreq hw hs hsend hs₁ hsent hd hpend
    hrecv hs', ?_⟩
  have hstring : cString (cString buf ++ [0]) = cString buf :=
    cString_append (fun b hb => ne_zero_of_mem_cString hb) []
  have hcount : blocks.countP (AbbreviatesNoCase (cString buf ++ [0]) ·) =
      blocks.countP (AbbreviatesNoCase buf ·) :=
    List.countP_congr fun s _ => by
      rw [decide_eq_true_iff, decide_eq_true_iff, AbbreviatesNoCase, AbbreviatesNoCase, hstring]
  rw [constrainString_fits info hlist hss hblocks (by simp) (by rw [hstring]; simp)]
  simp only [ReplacedInPlace, hcount, EqualNoCase, hstring]

def modeOption : SaneOptionDescriptor :=
  ⟨.null, .null, .null, SANE_TYPE_STRING, 0, 6, 0, SANE_CONSTRAINT_STRING_LIST,
    .stringList (stringBlocks [[67, 111, 108, 111, 114, 0], [71, 114, 97, 121, 0]])⟩

/-- The request of a net backend that sets the mode option, and what `saned` decodes it
    to. -/
def setMode (buf : List SaneByte) : Except Fault (OptionValue × Nat) := do
  let req ← setValueReq 0 1 modeOption (.chars buf)
  let sent ← sendControlOptionReq req (saneiWInit ⟨[], [], [], []⟩ [] 0)
  let received ← saneiWControlOptionReq saneiCodecBin ⟨0, 0, 0, 0, 0, .null⟩
    (decodingWire sent.2.io.sent [])
  return (received.1.value, received.2.status)

/-- `gray` arrives in a block that `Gray` fits into. -/
theorem set_string_fits_gray :
    ∃ req' d', saneiWControlOptionReq saneiCodecBin ⟨0, 0, 0, 0, 0, .null⟩
        (decodingWire (setStringBytes 0 1 [103, 114, 97, 121, 0]) []) = .ok (req', d') ∧
      ∃ value r, req'.value = .chars value ∧
        saneiConstrainValue modeOption value none = .ok r := by
  have hsent : (sendControlOptionReq ⟨0, 1, SANE_ACTION_SET_VALUE, SANE_TYPE_STRING, 5,
      .chars [103, 114, 97, 121, 0]⟩ (saneiWInit ⟨[], [], [], []⟩ [] 0)).map
        (fun r => (r.2.status, r.2.io.sent)) =
          .ok (0, setStringBytes 0 1 [103, 114, 97, 121, 0]) := by decide +kernel
  have hreceived : (saneiWControlOptionReq saneiCodecBin ⟨0, 0, 0, 0, 0, .null⟩
      (decodingWire (setStringBytes 0 1 [103, 114, 97, 121, 0]) [])).map (·.2.status) = .ok 0 := by
    decide +kernel
  cases hsend : sendControlOptionReq ⟨0, 1, SANE_ACTION_SET_VALUE, SANE_TYPE_STRING, 5,
      .chars [103, 114, 97, 121, 0]⟩ (saneiWInit ⟨[], [], [], []⟩ [] 0) with
  | error e => rw [hsend] at hsent; cases hsent
  | ok r =>
    obtain ⟨⟨⟩, w₁⟩ := r
    rw [hsend] at hsent
    obtain ⟨hs₁, hbytes⟩ := Prod.mk.inj (Except.ok.inj hsent)
    cases hrecv : saneiWControlOptionReq saneiCodecBin ⟨0, 0, 0, 0, 0, .null⟩
        (decodingWire (setStringBytes 0 1 [103, 114, 97, 121, 0]) []) with
    | error e => rw [hrecv] at hreceived; cases hreceived
    | ok r =>
      obtain ⟨req', d'⟩ := r
      rw [hrecv] at hreceived
      obtain ⟨value, hvalue, hfits⟩ := @set_string_fits 0 0 1 modeOption _
        [103, 114, 97, 121, 0] _ [] none _ _ _ _ _ _ _ rfl rfl rfl (by decide) (by decide)
        (by decide) (by decide) (saneiWInit_inEncode _ _ _) rfl hsend hs₁ hbytes
        (decodingWire_ready _ (by simp [ReadsDeliver])).toInDecode (List.append_nil _).symm hrecv
        (Except.ok.inj hreceived)
      obtain ⟨r, hr⟩ := hfits.mpr (by decide)
      exact ⟨req', d', rfl, value, r, hvalue, hr⟩

/-- `col` arrives in a block of four bytes, and the six of `Color` are stored there. -/
theorem set_string_overflow :
    setMode [99, 111, 108, 0] = .ok (.chars [99, 111, 108, 0], 0) ∧
      saneiConstrainValue modeOption [99, 111, 108, 0] none = .error .outOfBounds := by
  refine ⟨by decide +kernel, by decide⟩

end SaneBackends
