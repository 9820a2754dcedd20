import SaneBackends.AsciiCodec
import SaneBackends.WireTriples

/-!
# Writing with the ASCII codec

Which text the values of a sequence become, and where the write pointer is behind each of
them.  Room is asked for before everything that is stored but the quote at the end of a
string: when the buffer is full there, the quote is stored outside of it.
-/

namespace SaneBackends

open FaultState WordBytes Overwrite

variable {ver : Int}

/-! ### Writing -/

/-- Where the write pointer is after room for `n` bytes has been asked for. -/
def reserve (size curr n : Nat) : Nat := if curr + n ≤ size then curr else 0

theorem reserve_le {size curr n : Nat} (h : n ≤ size) : reserve size curr n + n ≤ size := by
  unfold reserve
  split_ifs <;> omega

/-- A wire that encodes without an error, with `text` in its stream and the write pointer at
    `curr`, whose writes are accepted in any pieces. -/
structure Wire.Fills (ver : Int) (size : Nat) (text : List SaneByte) (curr : Nat) (w : Wire) :
    Prop extends w.InEncode ver where
  good : w.status = 0
  accepts : WritesAccept w.io.writes
  sized : w.buffer.size = size
  written : w.stream = text
  place : w.buffer.curr = curr

theorem space_fills {size curr n : Nat} {text : List SaneByte} :
    Returns (Wire.Fills ver size text curr) (saneiWSpace n)
      (fun _ => Wire.Fills ver size text (reserve size curr n)) := by
  intro w h
  refine ⟨(), w.space n, rfl, ?_⟩
  have hfull := h.full
  have hsized := h.sized
  have hplace := h.place
  unfold reserve
  by_cases hfit : curr + n ≤ size
  · rw [if_pos hfit]
    have hsame : w.space n = w := by
      rw [Wire.space, if_neg (not_not.mpr h.good), if_pos (by omega)]
    rwa [hsame]
  · rw [if_neg hfit]
    have hsame : w.space n = w.drain := by
      rw [Wire.space, if_neg (not_not.mpr h.good), if_neg (by omega), h.dir]
    rw [hsame]
    obtain ⟨hok, hinput, hout, haccepts⟩ := w.drain_keeps h.buf h.good
    obtain ⟨hgood, hwrites⟩ := haccepts h.accepts
    rcases hout with ⟨-, hcurr, hend, hsent⟩ | ⟨hbad, -⟩
    · refine ⟨⟨hinput.dir.trans h.dir, hinput.version.trans h.version, hok, ?_⟩, hgood, hwrites,
        hinput.size.trans hsized, ?_, hcurr⟩
      · rw [hend, hinput.size]
      · rw [Wire.stream, WireBuffer.unsent, hcurr, List.take_zero, List.append_nil, hsent, h.written]
    · exact absurd hgood hbad

theorem putBytes_fills {size curr : Nat} {text bs : List SaneByte}
    (hfit : curr + bs.length ≤ size) :
    Returns (Wire.Fills ver size text curr) (putBytes bs)
      (fun _ => Wire.Fills ver size (text ++ bs) (curr + bs.length)) := by
  intro w h
  have hplace := h.place
  have hsized := h.sized
  have hlen := h.buf.length
  have hend := h.full
  have hroom : w.buffer.curr + bs.length ≤ w.buffer.size := by omega
  refine ⟨(), _, putBytes_run bs w hroom, ?_⟩
  refine ⟨⟨h.dir, h.version, ⟨?_, h.buf.endp_le, ?_, h.buf.room⟩, h.full⟩, h.good, h.accepts,
    h.sized, ?_, ?_⟩
  · show w.buffer.curr + bs.length ≤ w.buffer.endp
    omega
  · exact (length_overwrite (by omega)).trans hlen
  · show w.io.sent ++ (overwrite w.buffer.mem w.buffer.curr bs).take (w.buffer.curr + bs.length) = _
    rw [take_overwrite (by omega), ← List.append_assoc, ← h.written]
    rfl
  · show w.buffer.curr + bs.length = curr + bs.length
    rw [hplace]

/-- Without room the bytes are stored outside of the buffer. -/
theorem putBytes_faults {size curr : Nat} {text bs : List SaneByte}
    (hfull : size < curr + bs.length) :
    Faults (Wire.Fills ver size text curr) (putBytes bs) := by
  intro w h
  have hplace := h.place
  have hsized := h.sized
  refine ⟨.outOfBounds, ?_⟩
  have hno : w.buffer.curr + bs.length > w.buffer.size := by omega
  simp only [putBytes, bind_run, get_run, ite_run, if_pos hno, throw_run]

/-- Room is asked for and bytes are stored in it. -/
theorem store_fills {α : Type} {size curr n : Nat} {text bs : List SaneByte} {m : WireM α}
    {Q : α → Wire → Prop} (hn : n ≤ size) (hbs : bs.length ≤ n)
    (hm : Returns (Wire.Fills ver size (text ++ bs) (reserve size curr n + bs.length)) m Q) :
    Returns (Wire.Fills ver size text curr) (do saneiWSpace n; putBytes bs; m) Q := by
  refine space_fills.bind fun _ => (putBytes_fills ?_).bind fun _ => hm
  have := @reserve_le size curr n hn
  omega

theorem encode_direction {α : Type} {size curr : Nat} {text : List SaneByte}
    {f : WireDirection → WireM α} {Q : α → Wire → Prop}
    (h : Returns (Wire.Fills ver size text curr) (f .encode) Q) :
    Returns (Wire.Fills ver size text curr) (wireDirection >>= f) Q := by
  intro w hw
  rw [bind_of_ok (wireDirection_run w), hw.dir]
  exact h w hw

/-! ### What is written -/

/-- A value as it is written, up to the newline behind it. -/
def WireItem.text : WireItem → List SaneByte
  | .byte b => [hexdigit ((b >>> 4) &&& 0x0f), hexdigit (b &&& 0x0f)]
  | .char c =>
      quote :: (if c = quote ∨ c = backslash then [backslash] else []) ++ [c, quote]
  | .word w => wordText w
  | .string .null => ascii ['(', 'n', 'i', 'l', ')']
  | .string (.block bs) => doubleQuote :: (cString bs).flatMap escaped ++ [doubleQuote]
  | .string .wild => []

/-- Where the write pointer is after the bytes of a string have been written. -/
def afterChars (size curr : Nat) (str : CStr) : Nat :=
  str.foldl (fun curr ch => reserve size curr 2 + (escaped ch).length) curr

/-- Where it is when the quote at the end of a string is written. -/
def closingPlace (size curr : Nat) (bs : List SaneByte) : Nat :=
  afterChars size (reserve size curr 1 + 1) (cString bs)

/-- Where it is after a value has been written. -/
def WireItem.position (size curr : Nat) : WireItem → Nat
  | .byte _ => reserve size curr 3 + 3
  | .char c => reserve size curr 5 + ((WireItem.char c).text.length + 1)
  | .word w => reserve size curr ((wordText w).length + 1) + ((wordText w).length + 1)
  | .string .null => reserve size (reserve size curr 5 + 5) 1 + 1
  | .string (.block bs) => reserve size (closingPlace size curr bs + 1) 1 + 1
  | .string .wild => curr

/-- The buffer is not full when the quote at the end of a string is written. -/
def WireItem.QuoteFits (size curr : Nat) : WireItem → Prop
  | .string (.block bs) => closingPlace size curr bs < size
  | _ => True

/-- A value that can be written: a string is null or ends with the block it is in. -/
def WireItem.Valid : WireItem → Prop
  | .string s => s = .null ∨ ∃ str : CStr, 0 ∉ str ∧ s = .block (str ++ [0])
  | _ => True

theorem length_putDigits {fuel : Nat} {val : Int} {buf : List SaneByte} :
    (putDigits fuel val buf).length ≤ buf.length + fuel := by
  induction fuel generalizing val buf with
  | zero => exact le_rfl
  | succ fuel ih =>
    rw [putDigits]
    split_ifs
    · rw [List.length_cons]
      omega
    · refine ih.trans ?_
      rw [List.length_cons]
      omega

theorem length_wordText (w : SaneWord) : (wordText w).length ≤ 11 := by
  unfold wordText
  split_ifs
  · have := @length_putDigits 10 (-w).toInt []
    rw [List.length_cons]
    simp at this
    omega
  · have := @length_putDigits 10 w.toInt []
    simp at this
    omega

theorem cString_terminated {str : CStr} (h : 0 ∉ str) : cString (str ++ [0]) = str := by
  rw [cString_append_zero, cString_eq_self h]

theorem length_escaped (ch : SaneByte) : (escaped ch).length ≤ 2 := by
  unfold escaped
  split_ifs
  · exact le_rfl
  · exact Nat.le_succ 1

theorem putChars_fills {size curr : Nat} {text : List SaneByte} {str : CStr} (hsize : 2 ≤ size)
    (hstr : 0 ∉ str) :
    Returns (Wire.Fills ver size text curr) (putChars (str ++ [0]))
      (fun _ => Wire.Fills ver size (text ++ str.flatMap escaped) (afterChars size curr str)) := by
  induction str generalizing text curr with
  | nil =>
    rw [List.flatMap_nil, List.append_nil]
    exact Returns.pure fun _ h => h
  | cons ch str ih =>
    have hch : ch ≠ 0 := fun hch => hstr (hch ▸ List.mem_cons_self)
    have hstr' : 0 ∉ str := fun h0 => hstr (List.mem_cons_of_mem _ h0)
    rw [List.cons_append, putChars, if_neg hch, List.flatMap_cons, ← List.append_assoc]
    exact store_fills hsize (length_escaped ch) (ih hstr')

/-- The state after a value has been written. -/
abbrev WireItem.Written (ver : Int) (size curr : Nat) (text : List SaneByte) (item : WireItem) :
    Wire → Prop :=
  Wire.Fills ver size (text ++ item.text ++ [newline]) (item.position size curr)

theorem asciiWByte_fills {size curr : Nat} {text : List SaneByte} (hsize : 12 ≤ size)
    (b : SaneByte) :
    Returns (Wire.Fills ver size text curr) (asciiWByte b)
      (fun b' w => b' = b ∧ (WireItem.byte b).Written ver size curr text w) := by
  apply encode_direction
  refine store_fills (by omega) le_rfl (Returns.pure fun w hw => ⟨rfl, ?_⟩)
  rw [WireItem.Written, List.append_assoc]
  exact hw

theorem asciiWChar_fills {size curr : Nat} {text : List SaneByte} (hsize : 12 ≤ size)
    (c : SaneByte) :
    Returns (Wire.Fills ver size text curr) (asciiWChar c)
      (fun c' w => c' = c ∧ (WireItem.char c).Written ver size curr text w) := by
  apply encode_direction
  refine store_fills (by omega) ?_ (Returns.pure fun w hw => ⟨rfl, ?_⟩)
  · split_ifs <;> simp
  · have htext : quote :: (if c = quote ∨ c = backslash then [backslash] else []) ++
        [c, quote, newline] = (WireItem.char c).text ++ [newline] := by
      simp [WireItem.text]
    rw [htext] at hw
    rw [WireItem.Written, List.append_assoc]
    rw [List.length_append, List.length_singleton] at hw
    exact hw

theorem asciiWWord_fills {size curr : Nat} {text : List SaneByte} (hsize : 12 ≤ size)
    (word : SaneWord) :
    Returns (Wire.Fills ver size text curr) (asciiWWord word)
      (fun word' w => word' = word ∧ (WireItem.word word).Written ver size curr text w) := by
  have hlen := length_wordText word
  apply encode_direction
  refine store_fills (by omega) ?_ (Returns.pure fun w hw => ⟨rfl, ?_⟩)
  · rw [List.length_append, List.length_singleton]
  · rw [List.length_append, List.length_singleton] at hw
    rw [WireItem.Written, List.append_assoc]
    exact hw

theorem asciiWString_fills {size curr : Nat} {text : List SaneByte} (hsize : 12 ≤ size)
    {s : SaneString} (hvalid : (WireItem.string s).Valid)
    (hfits : (WireItem.string s).QuoteFits size curr) :
    Returns (Wire.Fills ver size text curr) (asciiWString s)
      (fun s' w => s' = s ∧ (WireItem.string s).Written ver size curr text w) := by
  apply encode_direction
  rcases hvalid with rfl | ⟨str, hstr, rfl⟩
  · refine store_fills (by omega) le_rfl ?_
    refine store_fills (by omega) le_rfl (Returns.pure fun w hw => ⟨rfl, hw⟩)
  · have hcontent := cString_terminated hstr
    have hclosing : closingPlace size curr (str ++ [0]) =
        afterChars size (reserve size curr 1 + 1) str := by
      rw [closingPlace, hcontent]
    have htext : (WireItem.string (.block (str ++ [0]))).text =
        doubleQuote :: str.flatMap escaped ++ [doubleQuote] := by
      rw [WireItem.text, hcontent]
    refine store_fills (by omega) le_rfl ((putChars_fills (by omega) hstr).bind fun _ => ?_)
    refine (putBytes_fills (hclosing ▸ hfits)).bind fun _ => ?_
    refine store_fills (by omega) le_rfl (Returns.pure fun w hw => ⟨rfl, ?_⟩)
    rw [WireItem.Written, htext, WireItem.position, hclosing]
    simpa using hw

theorem asciiWString_faults {size curr : Nat} {text : List SaneByte} (hsize : 12 ≤ size)
    {s : SaneString} (hvalid : (WireItem.string s).Valid)
    (hfull : ¬ (WireItem.string s).QuoteFits size curr) :
    Faults (Wire.Fills ver size text curr) (asciiWString s) := by
  rcases hvalid with rfl | ⟨str, hstr, rfl⟩
  · exact absurd trivial hfull
  · have hroom := @reserve_le size curr 1 (by omega)
    have hbody : Faults (Wire.Fills ver size text curr) (do
        saneiWSpace 1
        putBytes [doubleQuote]
        putChars (str ++ [0])
        putBytes [doubleQuote]
        saneiWSpace 1
        putBytes [newline]
        return .block (str ++ [0]) : WireM SaneString) := by
      refine space_fills.faults fun _ => (putBytes_fills hroom).faults fun _ =>
        (putChars_fills (by omega) hstr).faults fun _ => (putBytes_faults ?_).bind _
      rw [WireItem.QuoteFits, closingPlace, cString_terminated hstr] at hfull
      exact Nat.lt_succ_of_le (Nat.le_of_not_lt hfull)
    intro w hw
    obtain ⟨e, hrun⟩ := hbody w hw
    refine ⟨e, ?_⟩
    unfold asciiWString
    rw [bind_of_ok (wireDirection_run w), hw.dir]
    exact hrun

/-! ### Sequences -/

/-- Every quote at the end of a string finds room. -/
def AllFit (size curr : Nat) : List WireItem → Prop
  | [] => True
  | item :: items => item.QuoteFits size curr ∧ AllFit size (item.position size curr) items

/-- The text of a sequence: a newline stands behind each of its values. -/
def itemsText (items : List WireItem) : List SaneByte := items.flatMap fun item =>
  item.text ++ [newline]

theorem transfer_fills {size curr : Nat} {text : List SaneByte} (hsize : 12 ≤ size)
    {item : WireItem} (hvalid : item.Valid) (hfits : item.QuoteFits size curr) :
    Returns (Wire.Fills ver size text curr) (item.transfer saneiCodecAscii)
      (fun item' w => item' = item ∧ item.Written ver size curr text w) := by
  cases item with
  | byte b =>
    exact (asciiWByte_fills hsize b).bind fun b' => Returns.pure fun w hw => ⟨congrArg _ hw.1, hw.2⟩
  | char c =>
    exact (asciiWChar_fills hsize c).bind fun c' => Returns.pure fun w hw => ⟨congrArg _ hw.1, hw.2⟩
  | word v =>
    exact (asciiWWord_fills hsize v).bind fun v' => Returns.pure fun w hw => ⟨congrArg _ hw.1, hw.2⟩
  | string s =>
    exact (asciiWString_fills hsize hvalid hfits).bind fun s' =>
      Returns.pure fun w hw => ⟨congrArg _ hw.1, hw.2⟩

theorem transfer_faults {size curr : Nat} {text : List SaneByte} (hsize : 12 ≤ size)
    {item : WireItem} (hvalid : item.Valid) (hfull : ¬ item.QuoteFits size curr) :
    Faults (Wire.Fills ver size text curr) (item.transfer saneiCodecAscii) := by
  cases item with
  | string s => exact (asciiWString_faults hsize hvalid hfull).bind _
  | byte b => exact absurd trivial hfull
  | char c => exact absurd trivial hfull
  | word v => exact absurd trivial hfull

/-- The text of a sequence is written behind what was there before. -/
theorem transferAll_fills {size curr : Nat} {text : List SaneByte} (hsize : 12 ≤ size)
    {items : List WireItem} (hvalid : ∀ item ∈ items, item.Valid)
    (hfit : AllFit size curr items) :
    Returns (Wire.Fills ver size text curr) (transferAll saneiCodecAscii items)
      (fun items' w =>
        items' = items ∧ ∃ curr', Wire.Fills ver size (text ++ itemsText items) curr' w) := by
  induction items generalizing curr text with
  | nil =>
    refine Returns.pure fun w hw => ⟨rfl, curr, ?_⟩
    rw [itemsText, List.flatMap_nil, List.append_nil]
    exact hw
  | cons item items ih =>
    obtain ⟨hfirst, hrest⟩ := hfit
    intro w hw
    obtain ⟨_, w₁, hrun₁, rfl, hw₁⟩ :=
      transfer_fills hsize (hvalid item List.mem_cons_self) hfirst w hw
    obtain ⟨_, w₂, hrun₂, rfl, curr', hw₂⟩ :=
      ih (fun i hi => hvalid i (List.mem_cons_of_mem _ hi)) hrest w₁ hw₁
    refine ⟨_, w₂, ?_, rfl, curr', ?_⟩
    · rw [transferAll, bind_of_ok hrun₁, bind_of_ok hrun₂]
      rfl
    · rw [itemsText, List.flatMap_cons, ← List.append_assoc, ← List.append_assoc]
      exact hw₂

theorem transferAll_faults {size curr : Nat} {text : List SaneByte} (hsize : 12 ≤ size)
    {items : List WireItem} (hvalid : ∀ item ∈ items, item.Valid)
    (hfull : ¬ AllFit size curr items) :
    Faults (Wire.Fills ver size text curr) (transferAll saneiCodecAscii items) := by
  induction items generalizing curr text with
  | nil => exact absurd trivial hfull
  | cons item items ih =>
    have hitem := hvalid item List.mem_cons_self
    by_cases hfirst : item.QuoteFits size curr
    · refine (transfer_fills hsize hitem hfirst).faults fun item' => ?_
      intro w hw
      have hrest := ih (fun i hi => hvalid i (List.mem_cons_of_mem _ hi))
        (fun hrest => hfull ⟨hfirst, hrest⟩) w hw.2
      obtain ⟨e, hrun⟩ := hrest
      exact ⟨e, by rw [bind_run, hrun]⟩
    · exact (transfer_faults hsize hitem hfirst).bind _

end SaneBackends
