import SaneBackends.CStrings
import SaneBackends.Cells
import SaneBackends.FaultState

/-!
# The identity of a BJNP scanner

`get_scanner_id` of `backend/pixma_bjnp.c` receives a datagram, ends the identity in it at
the length that the datagram gives, and looks for the field `MDL` of the identity.  A cell
of the response buffer that was not received has no value: reading it is a fault.
-/

namespace SaneBackends.BjnpIdentity

open Overwrite

def BJNP_RESP_MAX : Nat := 2048
def BJNP_IEEE1284_MAX : Nat := 1024

/-- `sizeof (struct BJNP_command)`. -/
def commandSize : Nat := 16

def semicolon : SaneByte := 0x3b
def MDL : CStr := ascii ['M', 'D', 'L', ':']

/-! ### The source -/

/-- A byte of the response buffer. -/
def loadByte (mem : List (Option SaneByte)) (i : Nat) : Except Fault SaneByte :=
  match mem[i]? with
  | some (some b) => .ok b
  | some none => .error .wildPointer
  | none => .error .outOfBounds

/-- The string that begins a block, as `strcpy` reads it. -/
def loadString : List (Option SaneByte) → Except Fault CStr
  | [] => .error .outOfBounds
  | none :: _ => .error .wildPointer
  | some b :: mem => if b = 0 then .ok [] else (loadString mem).map (b :: ·)

/-- The tokens that `strtok (s, ";")` gives one after another. -/
def strtok (s : List SaneByte) : List CStr :=
  ((cString s).splitOn semicolon).filter (· ≠ [])

/-- The loop of `parse_IEEE1284_to_model` over the tokens. -/
def parseTokens (model : List SaneByte) : List CStr → Except Fault (Int × List SaneByte)
  | [] => return (0, model)
  | tok :: rest => do
    if ← strncmpEqual (tok ++ [0]) (MDL ++ [0]) 4 then
      return (1, ← strcpy model (tok.drop 4 ++ [0]))
    parseTokens model rest

/-- `parse_IEEE1284_to_model`: the result and the buffer `model`. -/
def parseIEEE1284ToModel (scannerId model : List SaneByte) :
    Except Fault (Int × List SaneByte) := do
  let s ← strcpy (List.replicate BJNP_IEEE1284_MAX 0) scannerId
  let model ← setCell model 0 0
  parseTokens model (strtok s)

/-- `resp_buf` when `received` has come in. -/
def respBuf (received : List SaneByte) : List (Option SaneByte) :=
  received.map some ++ List.replicate (BJNP_RESP_MAX - received.length) none

/-- The end of `get_scanner_id`, from "truncate string to be safe" on: the buffers
    `scanner_id` and `model`. -/
def takeIdentity (received scannerId model : List SaneByte) :
    Except Fault (List SaneByte × List SaneByte) := do
  let hi ← loadByte (respBuf received) 16
  let lo ← loadByte (respBuf received) 17
  let idLen : Int := (hi.toNat * 256 + lo.toNat : Nat) - 2
  let mem ← setCell (respBuf received) (18 + idLen).toNat (some 0)
  let id ← loadString (mem.drop 18)
  let scannerId ← strcpy scannerId (id ++ [0])
  let (_, model) ← parseIEEE1284ToModel scannerId model
  return (scannerId, model)

/-- `get_scanner_id`, where `response` is what `udp_command` receives: the result and the
    buffers. -/
def getScannerId (response : Option (List SaneByte)) (scannerId model : List SaneByte) :
    Except Fault (Int × List SaneByte × List SaneByte) := do
  let model ← strcpy model (ascii "Unidentified scanner".toList ++ [0])
  match response with
  | none => return (-1, scannerId, model)
  | some datagram => do
    let received := datagram.take BJNP_RESP_MAX
    if received.length < commandSize then return (-1, scannerId, model)
    let (scannerId, model) ← takeIdentity received scannerId model
    return (0, scannerId, model)

/-! ### What an identity is -/

/-- The value of the length field. -/
def lengthField (received : List SaneByte) : Nat :=
  (received.getD 16 0).toNat * 256 + (received.getD 17 0).toNat

/-- The identity in what was received: the bytes behind the length field, which counts
    itself, up to a NUL. -/
def identity (received : List SaneByte) : CStr :=
  cString ((received.drop 18).take (lengthField received - 2))

/-- `v` is the value of the first field `MDL` of the identity. -/
def ModelField (id v : CStr) : Prop :=
  ∃ before after : List CStr, id.splitOn semicolon = before ++ (MDL ++ v) :: after ∧
    ∀ field ∈ before, ¬MDL <+: field

/-- The function keeps to its buffers, uses bytes that were received, ends its strings and
    gives the value of the field `MDL`. -/
def Identifies (datagram scannerId model : List SaneByte) : Prop :=
  ∃ ret scannerId' model', getScannerId (some datagram) scannerId model =
      .ok (ret, scannerId', model') ∧
    scannerId'.length = BJNP_IEEE1284_MAX ∧ model'.length = BJNP_IEEE1284_MAX ∧ 0 ∈ model' ∧
    (ret = 0 → 0 ∈ scannerId' ∧ ∀ v, 
      ModelField (identity (datagram.take BJNP_RESP_MAX)) v → cString model' = v)

/-- The bytes that the source takes the identity from. -/
def identityBytes (received : List SaneByte) : List SaneByte :=
  if 2 ≤ lengthField received then (received.drop 18).take (lengthField received - 2)
  else received.drop 18

/-- A datagram that is too short for a header, or one that holds the length field and an
    identity which fits in its buffer and ends in the datagram. -/
def Contained (received : List SaneByte) : Prop :=
  received.length < commandSize ∨
    18 ≤ received.length ∧ lengthField received + commandSize < BJNP_RESP_MAX ∧
      (0 ∈ received.drop 18 ∨
        2 ≤ lengthField received ∧ lengthField received - 2 ≤ received.length - 18) ∧
      (cString (identityBytes received)).length < BJNP_IEEE1284_MAX

/-! ### Strings with cells that have no value -/

/-- The bytes up to the first NUL, as far as they have a value. -/
theorem loadString_append (xs : List SaneByte) (mem : List (Option SaneByte)) :
    loadString (xs.map some ++ mem) =
      if 0 ∈ xs then .ok (cString xs) else (loadString mem).map (xs ++ ·) := by
  induction xs with
  | nil =>
    rw [if_neg List.not_mem_nil, List.map_nil, List.nil_append]
    cases loadString mem <;> rfl
  | cons x xs ih =>
    rw [List.map_cons, List.cons_append, loadString]
    by_cases hx : x = 0
    · rw [if_pos hx, hx, if_pos List.mem_cons_self, cString_zero]
    · have hmem : 0 ∈ x :: xs ↔ 0 ∈ xs := by
        rw [List.mem_cons]
        exact or_iff_right fun h => hx h.symm
      rw [if_neg hx, ih]
      by_cases hxs : 0 ∈ xs
      · rw [if_pos hxs, if_pos (hmem.mpr hxs), cString_cons hx]
        rfl
      · rw [if_neg hxs, if_neg fun h => hxs (hmem.mp h)]
        cases loadString mem <;> rfl

/-- Cells without a value hold no string. -/
theorem loadString_blank (k : Nat) :
    ∃ e, loadString (List.replicate k none) = .error e := by
  cases k with
  | zero => exact ⟨_, rfl⟩
  | succ k => exact ⟨_, rfl⟩

/-- A NUL is stored in or right behind the bytes that have a value. -/
theorem loadString_cut {rest : List SaneByte} {n k : Nat} (hn : n < rest.length + k)
    (h : 0 ∈ rest ∨ n ≤ rest.length) :
    loadString ((rest.map some ++ List.replicate k none).set n (some 0)) =
      .ok (cString (rest.take n)) := by
  rcases Nat.lt_or_ge n rest.length with hlt | hge
  · have hset : (rest.map some).set n (some 0) = (rest.set n 0).map some := List.map_set.symm
    have hcut : cString (rest.set n 0) = cString (rest.take n) := by
      rw [List.set_eq_take_append_cons_drop, if_pos hlt, cString_append_zero]
    rw [List.set_append_left _ _ (by rw [List.length_map]; exact hlt), hset, loadString_append,
      if_pos (List.mem_set hlt 0), hcut]
  · rw [List.set_append_right _ _ (by rw [List.length_map]; exact hge), loadString_append,
      List.take_of_length_le hge, List.length_map]
    by_cases hzero : 0 ∈ rest
    · rw [if_pos hzero]
    · have hat : n - rest.length = 0 := by
        have hle := h.resolve_left hzero
        omega
      obtain ⟨j, rfl⟩ : ∃ j, k = j + 1 := ⟨k - 1, by omega⟩
      rw [if_neg hzero, hat, List.replicate_succ, List.set_cons_zero, cString_eq_self hzero]
      change Except.ok (rest ++ []) = _
      rw [List.append_nil]

/-- A NUL behind cells that have no value ends no string. -/
theorem loadString_uncut {rest : List SaneByte} {n k : Nat} (hzero : 0 ∉ rest)
    (hn : rest.length < n) :
    ∃ e, loadString ((rest.map some ++ List.replicate k none).set n (some 0)) = .error e := by
  rw [List.set_append_right _ _ (by rw [List.length_map]; omega), loadString_append, if_neg hzero,
    List.length_map]
  obtain ⟨j, hj⟩ : ∃ j, n - rest.length = j + 1 := ⟨n - rest.length - 1, by omega⟩
  rw [hj]
  cases k with
  | zero => exact ⟨_, rfl⟩
  | succ k => exact ⟨_, rfl⟩

section Loading

variable {received : List SaneByte} {i : Nat}

theorem loadByte_respBuf (hlen : received.length ≤ BJNP_RESP_MAX) (hi : i < BJNP_RESP_MAX) :
    loadByte (respBuf received) i =
      if i < received.length then .ok (received.getD i 0) else .error .wildPointer := by
  unfold loadByte respBuf
  by_cases hin : i < received.length
  · rw [if_pos hin, List.getElem?_append_left (by rw [List.length_map]; exact hin),
      List.getElem?_map, List.getElem?_eq_getElem hin, List.getD_eq_getElem?_getD,
      List.getElem?_eq_getElem hin]
    rfl
  · rw [if_neg hin, List.getElem?_append_right (by rw [List.length_map]; omega),
      List.length_map, List.getElem?_replicate_of_lt (by omega)]

theorem length_respBuf (hlen : received.length ≤ BJNP_RESP_MAX) :
    (respBuf received).length = BJNP_RESP_MAX := by
  rw [respBuf, List.length_append, List.length_map, List.length_replicate]
  omega

/-- The block from the identity on. -/
theorem respBuf_drop (hmin : 18 ≤ received.length) :
    (respBuf received).drop 18 = (received.drop 18).map some ++
      List.replicate (BJNP_RESP_MAX - received.length) none := by
  rw [respBuf, List.drop_append_of_le_length (by rw [List.length_map]; exact hmin), List.map_drop]

/-- What `strcpy` reads when the NUL has been stored. -/
theorem loadString_terminated (hmin : 18 ≤ received.length)
    (hlen : received.length ≤ BJNP_RESP_MAX)
    (hinside : lengthField received + commandSize < BJNP_RESP_MAX)
    (h : 0 ∈ received.drop 18 ∨
      2 ≤ lengthField received ∧ lengthField received - 2 ≤ received.length - 18) :
    loadString (((respBuf received).set (lengthField received + commandSize) (some 0)).drop 18) =
      .ok (cString (identityBytes received)) := by
  have hrest : (received.drop 18).length = received.length - 18 := List.length_drop
  have hsize : commandSize = 16 := rfl
  unfold identityBytes
  rw [List.drop_set, respBuf_drop hmin]
  by_cases hsmall : lengthField received + commandSize < 18
  · have hzero : 0 ∈ received.drop 18 := h.resolve_right fun h => by omega
    have hshort : ¬2 ≤ lengthField received := by omega
    rw [if_pos hsmall, if_neg hshort, loadString_append, if_pos hzero]
  · have hlong : 2 ≤ lengthField received := by omega
    have hat : lengthField received + commandSize - 18 = lengthField received - 2 := by omega
    rw [if_neg hsmall, if_pos hlong, hat]
    refine loadString_cut (by omega) (h.imp_right fun h => ?_)
    rw [hrest]
    exact h.2

theorem loadString_unterminated (hmin : 18 ≤ received.length)
    (h : ¬(0 ∈ received.drop 18 ∨
      2 ≤ lengthField received ∧ lengthField received - 2 ≤ received.length - 18)) :
    ∃ e, loadString
        (((respBuf received).set (lengthField received + commandSize) (some 0)).drop 18) =
      .error e := by
  have hrest : (received.drop 18).length = received.length - 18 := List.length_drop
  have hsize : commandSize = 16 := rfl
  obtain ⟨hzero, hfar⟩ := not_or.mp h
  rw [List.drop_set, respBuf_drop hmin]
  by_cases hsmall : lengthField received + commandSize < 18
  · rw [if_pos hsmall, loadString_append, if_neg hzero]
    obtain ⟨e, he⟩ := loadString_blank (BJNP_RESP_MAX - received.length)
    rw [he]
    exact ⟨e, rfl⟩
  · rw [if_neg hsmall]
    exact loadString_uncut hzero (by omega)

end Loading

/-! ### Looking for the model -/

section Parsing

variable {scannerId model : List SaneByte} {id : CStr} {toks : List CStr}

theorem sublist_of_mem_splitOn {f : CStr} (h : f ∈ id.splitOn semicolon) : f.Sublist id := by
  induction id generalizing f with
  | nil =>
    rw [List.splitOn_nil, List.mem_singleton] at h
    rw [h]
  | cons x id ih =>
    rw [List.splitOn_cons_eq_if_modifyHead] at h
    split at h
    · rcases List.mem_cons.mp h with rfl | h
      · exact List.nil_sublist _
      · exact (ih h).cons x
    · cases hsplit : id.splitOn semicolon with
      | nil => exact absurd hsplit (List.splitOn_ne_nil _ _)
      | cons g gs =>
        rw [hsplit, List.modifyHead_cons] at h
        rcases List.mem_cons.mp h with rfl | h
        · exact (ih (by rw [hsplit]; exact List.mem_cons_self)).cons_cons x
        · exact (ih (by rw [hsplit]; exact List.mem_cons_of_mem _ h)).cons x

theorem strncmp_MDL {tok : CStr} (htok : ∀ b ∈ tok, b ≠ 0) :
    strncmpEqual (tok ++ [0]) (MDL ++ [0]) 4 = .ok (decide (MDL <+: tok)) := by
  have hmdl : cString (MDL ++ [0]) = MDL := rfl
  rw [strncmpEqual, @strnEqual_eq id (fun b => Iff.rfl) 4 _ _ (by simp) (by decide),
    cString_append htok, hmdl, List.map_id, List.map_id]
  apply congrArg Except.ok
  rw [decide_eq_decide, List.prefix_iff_eq_take]
  exact eq_comm

/-- The first token that begins with `MDL:` gives the model. -/
theorem parseTokens_eq (htoks : ∀ tok ∈ toks, (∀ b ∈ tok, b ≠ 0) ∧ tok.length < BJNP_IEEE1284_MAX)
    (hmodel : model.length = BJNP_IEEE1284_MAX) (hzero : 0 ∈ model) :
    ∃ r model', parseTokens model toks = .ok (r, model') ∧ model'.length = BJNP_IEEE1284_MAX ∧
      0 ∈ model' ∧ ∀ before v after, toks = before ++ (MDL ++ v) :: after →
        (∀ tok ∈ before, ¬MDL <+: tok) → cString model' = v := by
  induction toks with
  | nil =>
    refine ⟨0, model, rfl, hmodel, hzero, ?_⟩
    intro before v after h
    exact absurd h (by simp)
  | cons tok toks ih =>
    obtain ⟨htok, hlen⟩ := htoks tok List.mem_cons_self
    unfold parseTokens
    rw [strncmp_MDL htok, FaultState.ok_bind]
    by_cases hfound : MDL <+: tok
    · obtain ⟨v, rfl⟩ := hfound
      have hv : ∀ b ∈ v, b ≠ 0 := fun b hb => htok b (List.mem_append_right _ hb)
      have hdrop : (MDL ++ v).drop 4 = v := rfl
      have hfits : (v ++ [0]).length ≤ model.length := by
        rw [List.length_append] at hlen
        rw [List.length_append, List.length_singleton, hmodel]
        have hmdl : MDL.length = 4 := rfl
        omega
      have hcopy : strcpy model (v ++ [0]) = .ok (overwrite model 0 (v ++ [0])) := by
        rw [strcpy_eq (by simp), cString_append hv, if_pos (by simpa using hfits)]
      rw [if_pos (decide_eq_true ⟨v, rfl⟩), hdrop, hcopy]
      refine ⟨1, _, rfl, ?_, (cString_overwrite hv).2, ?_⟩
      · rw [length_overwrite (by rw [Nat.zero_add]; exact hfits), hmodel]
      · intro before w after h hbefore
        cases before with
        | nil =>
          rw [List.nil_append, List.cons.injEq] at h
          rw [(cString_overwrite hv).1]
          exact List.append_cancel_left h.1
        | cons f before =>
          rw [List.cons_append, List.cons.injEq] at h
          exact absurd ⟨v, h.1⟩ (hbefore f List.mem_cons_self)
    · obtain ⟨r, model', hrun, hlen', hzero', hvalue⟩ :=
        ih fun t ht => htoks t (List.mem_cons_of_mem _ ht)
      have hskip : ¬decide (MDL <+: tok) = true := fun h => hfound (of_decide_eq_true h)
      rw [if_neg hskip]
      refine ⟨r, model', hrun, hlen', hzero', ?_⟩
      intro before w after h hbefore
      cases before with
      | nil =>
        rw [List.nil_append, List.cons.injEq] at h
        exact absurd ⟨w, h.1.symm⟩ hfound
      | cons f before =>
        rw [List.cons_append, List.cons.injEq] at h
        exact hvalue before w after h.2 fun t ht => hbefore t (List.mem_cons_of_mem _ ht)

/-- The model is the value of the field `MDL` of the identity. -/
theorem parseIEEE1284ToModel_eq (hid : ∀ b ∈ id, b ≠ 0) (hlen : id.length < BJNP_IEEE1284_MAX)
    (hmodel : model.length = BJNP_IEEE1284_MAX) :
    ∃ r model', parseIEEE1284ToModel (overwrite scannerId 0 (id ++ [0])) model =
        .ok (r, model') ∧ model'.length = BJNP_IEEE1284_MAX ∧ 0 ∈ model' ∧
      ∀ v, ModelField id v → cString model' = v := by
  have hcopy : strcpy (List.replicate BJNP_IEEE1284_MAX 0) (overwrite scannerId 0 (id ++ [0])) =
      .ok (overwrite (List.replicate BJNP_IEEE1284_MAX 0) 0 (id ++ [0])) := by
    rw [strcpy_eq (cString_overwrite hid).2, (cString_overwrite hid).1,
      if_pos (by rw [List.length_replicate]; omega)]
  have hset : setCell model 0 0 = .ok (model.set 0 0) :=
    setCell_of_lt (by rw [hmodel]; decide)
  have htokens : strtok (overwrite (List.replicate BJNP_IEEE1284_MAX 0) 0 (id ++ [0])) =
      (id.splitOn semicolon).filter (· ≠ []) := by
    rw [strtok, (cString_overwrite hid).1]
  have htoks : ∀ tok ∈ (id.splitOn semicolon).filter (· ≠ []),
      (∀ b ∈ tok, b ≠ 0) ∧ tok.length < BJNP_IEEE1284_MAX := by
    intro tok htok
    have hsub := sublist_of_mem_splitOn (List.mem_of_mem_filter htok)
    exact ⟨fun b hb => hid b (hsub.subset hb), lt_of_le_of_lt hsub.length_le hlen⟩
  obtain ⟨r, model', hrun, hlen', hzero, hvalue⟩ := @parseTokens_eq (model.set 0 0) _ htoks
    (by rw [List.length_set, hmodel]) (List.mem_set (by rw [hmodel]; decide) 0)
  unfold parseIEEE1284ToModel
  rw [hcopy, FaultState.ok_bind, hset, FaultState.ok_bind, htokens]
  refine ⟨r, model', hrun, hlen', hzero, ?_⟩
  rintro v ⟨before, after, hsplit, hbefore⟩
  have hne : decide (MDL ++ v ≠ []) = true := by
    apply decide_eq_true
    simp [MDL, ascii]
  refine hvalue (before.filter (· ≠ [])) v (after.filter (· ≠ [])) ?_ ?_
  · rw [hsplit, List.filter_append, List.filter_cons, if_pos hne]
  · exact fun tok htok => hbefore tok (List.mem_of_mem_filter htok)

end Parsing

/-! ### Asking for the identity -/

section Identity

variable {datagram scannerId model : List SaneByte}

theorem unidentified (hmodel : model.length = BJNP_IEEE1284_MAX) :
    ∃ model', strcpy model (ascii "Unidentified scanner".toList ++ [0]) = .ok model' ∧
      model'.length = BJNP_IEEE1284_MAX ∧ 0 ∈ model' := by
  have hall : ((ascii "Unidentified scanner".toList).all fun b => b != 0) = true := rfl
  have hname : ∀ b ∈ ascii "Unidentified scanner".toList, b ≠ 0 := fun b hb =>
    bne_iff_ne.1 (List.all_eq_true.1 hall b hb)
  have hfits : (cString (ascii "Unidentified scanner".toList ++ [0])).length + 1 ≤
      model.length := by
    rw [hmodel]
    decide
  refine ⟨_, (strcpy_eq (by simp)).trans (if_pos hfits), ?_, ?_⟩
  · rw [length_overwrite (by rw [hmodel]; decide), hmodel]
  · rw [cString_append hname]
    exact (cString_overwrite hname).2

/-- Where the length field is short the identity names no model. -/
theorem identity_cases (received : List SaneByte) :
    identity received = cString (identityBytes received) ∨
      ∀ v, ¬ModelField (identity received) v := by
  unfold identity identityBytes
  by_cases h : 2 ≤ lengthField received
  · rw [if_pos h]
    exact .inl rfl
  · refine .inr ?_
    have hzero : lengthField received - 2 = 0 := by omega
    rw [hzero, List.take_zero]
    rintro v ⟨before, after, hsplit, -⟩
    have hmem : MDL ++ v ∈ ([] : CStr).splitOn semicolon := by
      change MDL ++ v ∈ (cString []).splitOn semicolon
      rw [hsplit]
      simp
    rw [List.splitOn_nil, List.mem_singleton] at hmem
    exact absurd hmem (by simp [MDL, ascii])

theorem setCell_respBuf {received : List SaneByte} (hmin : 18 ≤ received.length)
    (hmax : received.length ≤ BJNP_RESP_MAX) :
    takeIdentity received scannerId model = (do
      let mem ← setCell (respBuf received) (lengthField received + commandSize) (some 0)
      let id ← loadString (mem.drop 18)
      let scannerId ← strcpy scannerId (id ++ [0])
      let (_, model) ← parseIEEE1284ToModel scannerId model
      return (scannerId, model)) := by
  have hbyte : ∀ i, i < 18 → loadByte (respBuf received) i = .ok (received.getD i 0) := by
    intro i hi
    rw [loadByte_respBuf hmax (by omega), if_pos (by omega)]
  have hat : (18 + ((lengthField received : Nat) - 2 : Int)).toNat =
      lengthField received + commandSize := by
    have hsize : commandSize = 16 := rfl
    omega
  unfold takeIdentity
  rw [hbyte 16 (by decide), FaultState.ok_bind, hbyte 17 (by decide), FaultState.ok_bind]
  change (setCell (respBuf received) (18 + ((lengthField received : Nat) - 2 : Int)).toNat
    (some 0) >>= _) = _
  rw [hat]

/-- An identity that fits and ends in what was received is taken, with its model. -/
theorem takeIdentity_ok {received : List SaneByte} (hmin : 18 ≤ received.length)
    (hmax : received.length ≤ BJNP_RESP_MAX)
    (hinside : lengthField received + commandSize < BJNP_RESP_MAX)
    (hends : 0 ∈ received.drop 18 ∨
      2 ≤ lengthField received ∧ lengthField received - 2 ≤ received.length - 18)
    (hfits : (cString (identityBytes received)).length < BJNP_IEEE1284_MAX)
    (hid : scannerId.length = BJNP_IEEE1284_MAX) (hmodel : model.length = BJNP_IEEE1284_MAX) :
    ∃ scannerId' model', takeIdentity received scannerId model = .ok (scannerId', model') ∧
      scannerId'.length = BJNP_IEEE1284_MAX ∧ model'.length = BJNP_IEEE1284_MAX ∧
      0 ∈ model' ∧ 0 ∈ scannerId' ∧ ∀ v, ModelField (identity received) v → cString model' = v := by
  have hnz : ∀ b ∈ cString (identityBytes received), b ≠ 0 := fun b hb => ne_zero_of_mem_cString hb
  have hset : setCell (respBuf received) (lengthField received + commandSize) (some 0) =
      .ok ((respBuf received).set (lengthField received + commandSize) (some 0)) :=
    setCell_of_lt (by rw [length_respBuf hmax]; exact hinside)
  have hcopy : strcpy scannerId (cString (identityBytes received) ++ [0]) =
      .ok (overwrite scannerId 0 (cString (identityBytes received) ++ [0])) := by
    rw [strcpy_eq (by simp), cString_append hnz, if_pos (by omega)]
  obtain ⟨r, model', hparse, hlen, hzero, hvalue⟩ :=
    @parseIEEE1284ToModel_eq scannerId model _ hnz hfits hmodel
  rw [setCell_respBuf hmin hmax, hset, FaultState.ok_bind,
    loadString_terminated hmin hmax hinside hends, FaultState.ok_bind, hcopy, FaultState.ok_bind,
    hparse, FaultState.ok_bind]
  refine ⟨_, _, rfl, ?_, hlen, hzero, (cString_overwrite hnz).2, ?_⟩
  · rw [length_overwrite (by rw [List.length_append, List.length_singleton]; omega), hid]
  · intro v hv
    rcases identity_cases received with h | h
    · rw [h] at hv
      exact hvalue v hv
    · exact absurd hv (h v)

/-- Otherwise a byte is used that was not received, or a buffer is left. -/
theorem takeIdentity_error {received : List SaneByte}
    (hmax : received.length ≤ BJNP_RESP_MAX) (h : ¬Contained received)
    (hid : scannerId.length = BJNP_IEEE1284_MAX) :
    ∃ e, takeIdentity received scannerId model = .error e := by
  have hsize : commandSize = 16 := rfl
  have hresp : BJNP_RESP_MAX = 2048 := rfl
  by_cases hmin : 18 ≤ received.length
  case neg =>
    by_cases hhi : 16 < received.length
    · have hlo : ¬17 < received.length := by omega
      refine ⟨.wildPointer, ?_⟩
      unfold takeIdentity
      rw [loadByte_respBuf hmax (by omega), if_pos hhi, FaultState.ok_bind,
        loadByte_respBuf hmax (by omega), if_neg hlo, FaultState.error_bind]
    · refine ⟨.wildPointer, ?_⟩
      unfold takeIdentity
      rw [loadByte_respBuf hmax (by omega), if_neg hhi, FaultState.error_bind]
  rw [setCell_respBuf hmin hmax]
  by_cases hinside : lengthField received + commandSize < BJNP_RESP_MAX
  case neg =>
    have hset : setCell (respBuf received) (lengthField received + commandSize) (some 0) =
        .error .outOfBounds := if_neg (by rw [length_respBuf hmax]; exact hinside)
    exact ⟨.outOfBounds, by rw [hset, FaultState.error_bind]⟩
  have hset : setCell (respBuf received) (lengthField received + commandSize) (some 0) =
      .ok ((respBuf received).set (lengthField received + commandSize) (some 0)) :=
    setCell_of_lt (by rw [length_respBuf hmax]; exact hinside)
  rw [hset, FaultState.ok_bind]
  by_cases hends : 0 ∈ received.drop 18 ∨
      2 ≤ lengthField received ∧ lengthField received - 2 ≤ received.length - 18
  case neg =>
    obtain ⟨e, he⟩ := loadString_unterminated hmin hends
    exact ⟨e, by rw [he, FaultState.error_bind]⟩
  have hlong : ¬(cString (identityBytes received)).length < BJNP_IEEE1284_MAX :=
    fun hfits => h (.inr ⟨hmin, hinside, hends, hfits⟩)
  have hnz : ∀ b ∈ cString (identityBytes received), b ≠ 0 := fun b hb => ne_zero_of_mem_cString hb
  have hcopy : strcpy scannerId (cString (identityBytes received) ++ [0]) =
      .error .outOfBounds := by
    rw [strcpy_eq (by simp), cString_append hnz, if_neg (by omega)]
  exact ⟨.outOfBounds, by
    rw [loadString_terminated hmin hmax hinside hends, FaultState.ok_bind, hcopy,
      FaultState.error_bind]⟩

/-- The identity is taken safely exactly from the datagrams that contain it. -/
theorem identifies_iff (hid : scannerId.length = BJNP_IEEE1284_MAX)
    (hmodel : model.length = BJNP_IEEE1284_MAX) :
    Identifies datagram scannerId model ↔ Contained (datagram.take BJNP_RESP_MAX) := by
  have hmax : (datagram.take BJNP_RESP_MAX).length ≤ BJNP_RESP_MAX := List.length_take_le _ _
  obtain ⟨model', hname, hlen', hzero'⟩ := unidentified hmodel
  have hrun : getScannerId (some datagram) scannerId model =
      if (datagram.take BJNP_RESP_MAX).length < commandSize then .ok (-1, scannerId, model')
      else takeIdentity (datagram.take BJNP_RESP_MAX) scannerId model' >>=
        fun out => .ok (0, out.1, out.2) := by
    unfold getScannerId
    rw [hname, FaultState.ok_bind]
    rfl
  unfold Identifies
  generalize datagram.take BJNP_RESP_MAX = received at *
  by_cases hshort : received.length < commandSize
  · rw [hrun, if_pos hshort]
    refine iff_of_true ⟨-1, scannerId, model', rfl, hid, hlen', hzero', ?_⟩ (.inl hshort)
    exact fun h => absurd h (by decide)
  rw [hrun, if_neg hshort]
  constructor
  · rintro ⟨ret, scannerId', model'', hout, -⟩
    by_contra hnot
    obtain ⟨e, he⟩ := @takeIdentity_error scannerId model' received hmax hnot hid
    rw [he, FaultState.error_bind] at hout
    cases hout
  · rintro (h | ⟨hmin, hinside, hends, hfits⟩)
    · exact absurd h hshort
    · obtain ⟨scannerId', model'', htake, h₁, h₂, h₃, h₄, h₅⟩ :=
        takeIdentity_ok hmin hmax hinside hends hfits hid hlen'
      refine ⟨0, scannerId', model'', ?_, h₁, h₂, h₃, fun _ => ⟨h₄, h₅⟩⟩
      rw [htake, FaultState.ok_bind]

/-- The identity `MDL:X;`. -/
theorem identifies_X : Identifies
    (List.replicate 16 0 ++ [0, 8] ++ ascii ['M', 'D', 'L', ':', 'X', ';'])
    (List.replicate BJNP_IEEE1284_MAX 0) (List.replicate BJNP_IEEE1284_MAX 0) :=
  (identifies_iff List.length_replicate List.length_replicate).mpr
    (.inr ⟨by decide, by decide, .inr ⟨by decide, by decide⟩, by decide⟩)

/-- A length field of 65535 ends the identity behind the response buffer. -/
theorem overlong_identity : ¬Identifies (List.replicate 16 0 ++ [0xff, 0xff])
    (List.replicate BJNP_IEEE1284_MAX 0) (List.replicate BJNP_IEEE1284_MAX 0) := by
  have hrun : getScannerId (some (List.replicate 16 0 ++ [0xff, 0xff]))
      (List.replicate BJNP_IEEE1284_MAX 0) (List.replicate BJNP_IEEE1284_MAX 0) =
      .error .outOfBounds := by decide +kernel
  rintro ⟨ret, scannerId', model', hout, -⟩
  rw [hrun] at hout
  cases hout

end Identity

end SaneBackends.BjnpIdentity
