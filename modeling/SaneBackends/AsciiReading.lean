import SaneBackends.AsciiWriting
import SaneBackends.WireArrays
import Mathlib.Tactic.IntervalCases

/-!
# Reading with the ASCII codec

What the functions of the codec make of the text that one of them has written, when a
newline stands behind it: the newline stays where it is, and all but the function for
chars pass over the one that was left in front.
-/

namespace SaneBackends

open FaultState WordBytes Overwrite

variable {ver : Int} {α : Type} {Q : α → Wire → Prop}

/-! ### Looking ahead -/

/-- A wire that decodes, with the bytes `xs` to come and the first `i` of them in the buffer. -/
structure Wire.Awaits (ver : Int) (xs : List SaneByte) (i : Nat) (w : Wire) : Prop
    extends w.Ready ver where
  ahead : w.pending = xs
  held : i ≤ w.buffer.unread.length

theorem decode_direction {xs : List SaneByte} {i : Nat} {f : WireDirection → WireM α}
    (h : Returns (Wire.Awaits ver xs i) (f .decode) Q) :
    Returns (Wire.Awaits ver xs i) (wireDirection >>= f) Q := by
  intro w hw
  rw [bind_of_ok (wireDirection_run w), hw.dir]
  exact h w hw

theorem good_status {xs : List SaneByte} {i : Nat} {f : Nat → WireM α}
    (h : Returns (Wire.Awaits ver xs i) (f 0) Q) :
    Returns (Wire.Awaits ver xs i) (wireStatus >>= f) Q := by
  intro w hw
  rw [bind_of_ok (wireStatus_run w), hw.good]
  exact h w hw

/-- What is asked for is in the buffer, if it comes at all. -/
theorem space_awaits {xs : List SaneByte} {i n : Nat} {m : WireM α} (hn : n ≤ 4)
    (hxs : n ≤ xs.length) (h : Returns (Wire.Awaits ver xs n) m Q) :
    Returns (Wire.Awaits ver xs i) (do saneiWSpace n; m) Q := by
  intro w hw
  have hroom := hw.buf.room
  obtain ⟨-, hpending, -, hmuch⟩ := hw.toInDecode.space n
  have hready := hw.toReady.space (by omega) (hw.ahead ▸ hxs)
  rw [bind_of_ok (saneiWSpace_run n w)]
  exact h _ ⟨hready, hpending.trans hw.ahead, (hmuch hready.good).2⟩

/-- A byte that is held is the one at `curr`. -/
theorem Wire.Awaits.drop {b : SaneByte} {xs : List SaneByte} {i : Nat} {w : Wire}
    (hw : Wire.Awaits ver (b :: xs) (i + 1) w) :
    w.buffer.curr + 1 ≤ w.buffer.endp ∧
      w.buffer.mem.drop w.buffer.curr = b :: w.buffer.mem.drop (w.buffer.curr + 1) := by
  have hheld := hw.held
  have hlength := hw.buf.length_unread
  refine ⟨by omega, ?_⟩
  have hcurr : w.buffer.curr < w.buffer.mem.length := by
    have := hw.buf.endp_le
    have := hw.buf.length
    omega
  have hahead := hw.ahead
  obtain ⟨k, hk⟩ : ∃ k, w.buffer.endp - w.buffer.curr = k + 1 :=
    ⟨w.buffer.endp - w.buffer.curr - 1, by omega⟩
  rw [Wire.pending, WireBuffer.unread, List.drop_eq_getElem_cons hcurr, hk, List.take_succ_cons,
    List.cons_append, List.cons.injEq] at hahead
  rw [List.drop_eq_getElem_cons hcurr, hahead.1]

/-- The wire after the byte at `curr` has been passed. -/
theorem Wire.Awaits.pass {b : SaneByte} {xs : List SaneByte} {i : Nat} {w : Wire}
    (hw : Wire.Awaits ver (b :: xs) (i + 1) w) :
    Wire.Awaits ver xs i { w with buffer := { w.buffer with curr := w.buffer.curr + 1 } } := by
  obtain ⟨hcurr, hdrop⟩ := hw.drop
  have hbuf : WireBuffer.Ok { w.buffer with curr := w.buffer.curr + 1 } :=
    ⟨hcurr, hw.buf.endp_le, hw.buf.length, hw.buf.room⟩
  have hunread : w.buffer.unread =
      b :: WireBuffer.unread { w.buffer with curr := w.buffer.curr + 1 } := by
    obtain ⟨k, hk⟩ : ∃ k, w.buffer.endp - w.buffer.curr = k + 1 :=
      ⟨w.buffer.endp - w.buffer.curr - 1, by omega⟩
    have hk' : w.buffer.endp - (w.buffer.curr + 1) = k := by omega
    simp only [WireBuffer.unread]
    rw [hdrop, hk, hk', List.take_succ_cons]
  have hahead := hw.ahead
  rw [Wire.pending, hunread, List.cons_append, List.cons.injEq] at hahead
  have hheld := hw.held
  rw [hunread, List.length_cons] at hheld
  exact ⟨⟨⟨hw.dir, hw.version, hbuf⟩, hw.good, hw.reads, hw.mallocs⟩, hahead.2,
    Nat.le_of_succ_le_succ hheld⟩

theorem next_awaits {b : SaneByte} {xs : List SaneByte} {i : Nat} {f : SaneByte → WireM α}
    (h : Returns (Wire.Awaits ver xs i) (f b) Q) :
    Returns (Wire.Awaits ver (b :: xs) (i + 1)) (nextByte >>= f) Q := by
  intro w hw
  obtain ⟨hcurr, hdrop⟩ := hw.drop
  have hend := hw.buf.endp_le
  have hrun : nextByte w =
      .ok (b, { w with buffer := { w.buffer with curr := w.buffer.curr + 1 } }) := by
    rw [nextByte, bind_of_ok (getBytes_run 1 w (by omega)), hdrop]
    rfl
  rw [bind_of_ok hrun]
  exact h _ hw.pass

theorem curr_awaits {b : SaneByte} {xs : List SaneByte} {i : Nat} {f : SaneByte → WireM α}
    (h : Returns (Wire.Awaits ver (b :: xs) (i + 1)) (f b) Q) :
    Returns (Wire.Awaits ver (b :: xs) (i + 1)) (currByte >>= f) Q := by
  intro w hw
  obtain ⟨hcurr, hdrop⟩ := hw.drop
  have hend := hw.buf.endp_le
  have hrun : currByte w = .ok (b, w) := by
    have hin : ¬ w.buffer.curr + 1 > w.buffer.size := by omega
    simp only [currByte, bind_run, get_run, ite_run, if_neg hin, pure_run, hdrop, List.headD_cons]
  rw [bind_of_ok hrun]
  exact h w hw

theorem advance_awaits {b : SaneByte} {xs : List SaneByte} {i : Nat} {m : WireM α}
    (h : Returns (Wire.Awaits ver xs i) m Q) :
    Returns (Wire.Awaits ver (b :: xs) (i + 1)) (do advance; m) Q := by
  intro w hw
  have hrun : advance w =
      .ok ((), { w with buffer := { w.buffer with curr := w.buffer.curr + 1 } }) := rfl
  rw [bind_of_ok hrun]
  exact h _ hw.pass

/-- No loop runs out of turns. -/
theorem fuel_awaits {xs : List SaneByte} {i : Nat} {f : Nat → WireM α}
    (h : ∀ fuel, xs.length < fuel → Returns (Wire.Awaits ver xs i) (f fuel) Q) :
    Returns (Wire.Awaits ver xs i) (loopFuel >>= f) Q := by
  intro w hw
  have hrun : loopFuel w = .ok (w.io.inbound.length + w.buffer.size + 1, w) := rfl
  rw [bind_of_ok hrun]
  refine h _ ?_ w hw
  have hlength := hw.buf.length_unread
  have hend := hw.buf.endp_le
  rw [← hw.ahead, Wire.pending, List.length_append]
  omega

/-! ### White space -/

theorem skipWsLoop_awaits {lead xs : List SaneByte} {x : SaneByte} {i fuel : Nat}
    (hlead : ∀ b ∈ lead, isSpace b = true) (hx : isSpace x = false) (hfuel : lead.length < fuel) :
    Returns (Wire.Awaits ver (lead ++ x :: xs) i) (skipWsLoop fuel)
      (fun _ => Wire.Awaits ver (x :: xs) 1) := by
  induction lead generalizing fuel i with
  | nil =>
    obtain ⟨fuel, rfl⟩ := Nat.exists_eq_succ_of_ne_zero (Nat.ne_of_gt hfuel)
    refine space_awaits (by omega) (by simp) (good_status ?_)
    refine curr_awaits ?_
    rw [hx]
    exact Returns.pure fun _ h => h
  | cons b lead ih =>
    obtain ⟨fuel, rfl⟩ := Nat.exists_eq_succ_of_ne_zero (Nat.ne_of_gt (Nat.zero_lt_of_lt hfuel))
    refine space_awaits (by omega) (by simp) (good_status ?_)
    refine curr_awaits ?_
    rw [hlead b List.mem_cons_self]
    exact advance_awaits (ih (fun b' hb' => hlead b' (List.mem_cons_of_mem _ hb'))
      (Nat.lt_of_succ_lt_succ hfuel))

theorem skipWs_awaits {lead xs : List SaneByte} {x : SaneByte} {i : Nat} {m : WireM α}
    (hlead : ∀ b ∈ lead, isSpace b = true) (hx : isSpace x = false)
    (h : Returns (Wire.Awaits ver (x :: xs) 1) m Q) :
    Returns (Wire.Awaits ver (lead ++ x :: xs) i) (do skipWs; m) Q := by
  refine Returns.bind (fuel_awaits fun fuel hfuel => skipWsLoop_awaits hlead hx ?_) fun _ => h
  rw [List.length_append] at hfuel
  omega

/-! ### Bytes and chars -/

theorem getDigit_awaits {d : SaneByte} {xs : List SaneByte} {i : Nat} {f : SaneWord → WireM α}
    (hd : (digitValue d).toNat ≤ 0xf)
    (h : Returns (Wire.Awaits ver xs 0) (f (digitValue d)) Q) :
    Returns (Wire.Awaits ver (d :: xs) i) (getDigit >>= f) Q := by
  refine Returns.bind (Q := fun v w => v = digitValue d ∧ Wire.Awaits ver xs 0 w)
    (space_awaits (by omega) (by simp) (next_awaits ?_)) fun v => ?_
  · rw [if_neg (by omega)]
    exact Returns.pure fun w hw => ⟨rfl, hw⟩
  · rintro w ⟨rfl, hw⟩
    exact h w hw

/-- The digits of a byte, and the byte put together again from them. -/
theorem hexdigit_byte (b : SaneByte) :
    (digitValue (hexdigit (b &&& 0x0f))).toNat ≤ 0xf ∧
    isSpace (hexdigit (b &&& 0x0f)) = false ∧
    ((digitValue (hexdigit ((b >>> 4) &&& 0x0f)) <<< 4) |||
      digitValue (hexdigit (b &&& 0x0f))).setWidth 8 = b := by
  revert b
  decide +kernel

theorem hexdigit_digit (b : SaneByte) :
    (digitValue (hexdigit (b &&& 0x0f))).toNat ≤ 0xf ∧ isSpace (hexdigit (b &&& 0x0f)) = false :=
  ⟨(hexdigit_byte b).1, (hexdigit_byte b).2.1⟩

theorem asciiWByte_awaits {lead rest : List SaneByte} (hlead : ∀ b ∈ lead, isSpace b = true)
    (prior b : SaneByte) :
    Returns (Wire.Awaits ver (lead ++ ((WireItem.byte b).text ++ newline :: rest)) 0)
      (asciiWByte prior) (fun b' w => b' = b ∧ Wire.Awaits ver (newline :: rest) 0 w) := by
  refine decode_direction (skipWs_awaits hlead (hexdigit_digit _).2 ?_)
  refine getDigit_awaits (hexdigit_digit _).1 (getDigit_awaits (hexdigit_digit _).1 ?_)
  exact Returns.pure fun w hw => ⟨(hexdigit_byte b).2.2, hw⟩

theorem asciiWChar_awaits {rest : List SaneByte} (prior c : SaneByte) :
    Returns (Wire.Awaits ver ((WireItem.char c).text ++ newline :: rest) 0)
      (asciiWChar prior) (fun c' w => c' = c ∧ Wire.Awaits ver (newline :: rest) 0 w) := by
  have hlast (i : Nat) : Returns (Wire.Awaits ver (quote :: newline :: rest) (i + 1))
      (do
        if (← nextByte) ≠ quote then setStatus EINVAL
        return c)
      (fun c' w => c' = c ∧ Wire.Awaits ver (newline :: rest) 0 w) :=
    next_awaits (Returns.pure fun w hw => ⟨rfl, hw.toReady, hw.ahead, Nat.zero_le _⟩)
  apply decode_direction
  by_cases hc : c = quote ∨ c = backslash
  · have htext : (WireItem.char c).text ++ newline :: rest =
        quote :: backslash :: c :: quote :: newline :: rest := by
      rw [WireItem.text, if_pos hc]
      rfl
    rw [htext]
    refine space_awaits (by omega) (by simp) (next_awaits (next_awaits ?_))
    exact space_awaits (by omega) (by simp) (next_awaits (hlast 0))
  · have htext : (WireItem.char c).text ++ newline :: rest =
        quote :: c :: quote :: newline :: rest := by
      rw [WireItem.text, if_neg hc]
      rfl
    rw [htext]
    refine space_awaits (by omega) (by simp) (next_awaits (next_awaits ?_))
    rw [if_neg fun h => hc (.inr h)]
    exact hlast 1

/-- The function for chars does not pass over white space: it gives up. -/
theorem asciiWChar_newline {rest : List SaneByte} (prior : SaneByte) (hrest : 3 ≤ rest.length) :
    Returns (Wire.Awaits ver (newline :: rest) 0) (asciiWChar prior) (fun c' _ => c' = prior) := by
  refine decode_direction (space_awaits (by omega) (by simp; omega) (next_awaits ?_))
  intro w hw
  exact ⟨prior, _, rfl, rfl⟩

/-! ### Strings -/

theorem realloc_awaits {xs : List SaneByte} {i old new : Nat} {f : Bool → WireM α}
    (h : Returns (Wire.Awaits ver xs i) (f true) Q) :
    Returns (Wire.Awaits ver xs i) (realloc old new >>= f) Q := by
  intro w hw
  obtain ⟨heap, hmalloc, hmallocs, -, -⟩ := malloc_run new w
  have hrun : realloc old new w =
      .ok (true, { w with heap := { heap with live := heap.live - old } }) := by
    rw [realloc, bind_of_ok hmalloc, hw.toReady.malloc_head]
    rfl
  have htail := hw.toReady.mallocs_tail
  rw [← hmallocs] at htail
  rw [bind_of_ok hrun]
  exact h _ ⟨⟨⟨hw.dir, hw.version, hw.buf⟩, hw.good, hw.reads, htail⟩, hw.ahead, hw.held⟩

/-- Room is made for one more byte if there is none. -/
theorem room_awaits {β : Type} {R : Option β → Wire → Prop} {xs : List SaneByte} {i n : Nat}
    {alloced : Nat} {k : Nat → WireM (Option β)}
    (h : ∀ room, Returns (Wire.Awaits ver xs i) (k room) R) :
    Returns (Wire.Awaits ver xs i)
      (do
        let room := if alloced ≤ n then alloced + 1024 else alloced
        if alloced ≤ n then
          if !(← realloc alloced room) then
            setStatus ENOMEM
            return none
        k room) R := by
  by_cases hroom : alloced ≤ n
  · simp only [if_pos hroom]
    exact realloc_awaits (h _)
  · simp only [if_neg hroom]
    exact h _

theorem getChars_awaits {str : CStr} {rest acc : List SaneByte} {i fuel alloced : Nat}
    (hfuel : str.length < fuel) :
    Returns (Wire.Awaits ver (str.flatMap escaped ++ doubleQuote :: rest) i)
      (getChars fuel alloced acc)
      (fun r w => (∃ room, r = some (room, acc ++ str)) ∧ Wire.Awaits ver rest 0 w) := by
  induction str generalizing fuel alloced acc i with
  | nil =>
    obtain ⟨fuel, rfl⟩ := Nat.exists_eq_succ_of_ne_zero (Nat.ne_of_gt hfuel)
    refine space_awaits (by omega) (by simp) (good_status (next_awaits ?_))
    have hquote : doubleQuote ≠ backslash := by decide
    dsimp only
    rw [if_neg hquote, pure_bind]
    refine room_awaits (k := fun room => pure (some (room, acc))) fun room => ?_
    exact Returns.pure fun w hw => ⟨⟨room, by rw [List.append_nil]⟩, hw⟩
  | cons ch str ih =>
    obtain ⟨fuel, rfl⟩ := Nat.exists_eq_succ_of_ne_zero (Nat.ne_of_gt (Nat.zero_lt_of_lt hfuel))
    have hrest (room : Nat) := @ih (acc ++ [ch]) 0 fuel room
      (Nat.lt_of_succ_lt_succ hfuel)
    simp only [List.append_assoc, List.singleton_append] at hrest
    rw [List.flatMap_cons, List.append_assoc]
    by_cases hch : ch = doubleQuote ∨ ch = backslash
    · rw [escaped, if_pos hch]
      refine space_awaits (by omega) (by simp) (good_status (next_awaits ?_))
      refine space_awaits (by omega) (by simp) (next_awaits ?_)
      exact room_awaits hrest
    · rw [escaped, if_neg hch]
      refine space_awaits (by omega) (by simp) (good_status (next_awaits ?_))
      rw [if_neg fun h => hch (.inr h), pure_bind]
      dsimp only
      rw [if_neg fun h => hch (.inl h)]
      exact room_awaits (k := fun room => getChars fuel room (acc ++ [ch])) hrest

theorem length_le_escaped (str : CStr) : str.length ≤ (str.flatMap escaped).length := by
  induction str with
  | nil => exact le_rfl
  | cons ch str ih =>
    have hone : 1 ≤ (escaped ch).length := by
      unfold escaped
      split_ifs <;> simp
    rw [List.flatMap_cons, List.length_append, List.length_cons]
    omega

theorem asciiWString_awaits {lead rest : List SaneByte} (hlead : ∀ b ∈ lead, isSpace b = true)
    (prior : SaneString) {s : SaneString} (hvalid : (WireItem.string s).Valid) :
    Returns (Wire.Awaits ver (lead ++ ((WireItem.string s).text ++ newline :: rest)) 0)
      (asciiWString prior) (fun s' w => s' = s ∧ Wire.Awaits ver (newline :: rest) 0 w) := by
  apply decode_direction
  rcases hvalid with rfl | ⟨str, hstr, rfl⟩
  · refine skipWs_awaits hlead (by decide) (space_awaits (by omega) (by simp) (next_awaits ?_))
    refine space_awaits (by omega) (by simp) ?_
    refine Returns.bind (Q := fun found w => found = true ∧ Wire.Awaits ver (newline :: rest) 0 w)
      (next_awaits (next_awaits (next_awaits (next_awaits ?_)))) fun found => ?_
    · exact Returns.pure fun w hw => ⟨rfl, hw⟩
    · rintro w ⟨rfl, hw⟩
      exact ⟨_, w, rfl, rfl, hw⟩
  · have htext : (WireItem.string (.block (str ++ [0]))).text ++ newline :: rest =
        doubleQuote :: (str.flatMap escaped ++ doubleQuote :: newline :: rest) := by
      rw [WireItem.text, cString_terminated hstr]
      simp
    rw [htext]
    refine skipWs_awaits hlead (by decide) (space_awaits (by omega) (by simp) (next_awaits ?_))
    rw [if_pos rfl]
    refine fuel_awaits fun fuel hfuel => Returns.bind (getChars_awaits ?_) fun r => ?_
    · have hlength := length_le_escaped str
      rw [List.length_append] at hfuel
      omega
    · rintro w ⟨⟨room, rfl⟩, hw⟩
      have hlast : Returns (Wire.Awaits ver (newline :: rest) 0)
          (do
            if ← realloc room (str.length + 1) then return .block (str ++ [0])
            else
              setStatus ENOMEM
              return .null : WireM SaneString)
          (fun s' w => s' = .block (str ++ [0]) ∧ Wire.Awaits ver (newline :: rest) 0 w) :=
        realloc_awaits (Returns.pure fun w hw => ⟨rfl, hw⟩)
      exact hlast w hw

/-! ### Words -/

/-- What one more digit makes of the value read so far. -/
def addDigit (val : SaneWord) (ch : SaneByte) : SaneWord := 10 * val + (ch.signExtend 32 - 48)

theorem getDigits_awaits {ds rest : List SaneByte} {stop : SaneByte} {i fuel : Nat} {val : SaneWord}
    (hds : ∀ d ∈ ds, isDigit d = true) (hstop : isDigit stop = false) (hfuel : ds.length < fuel) :
    Returns (Wire.Awaits ver (ds ++ stop :: rest) i) (getDigits fuel val)
      (fun r w => r = some (ds.foldl addDigit val) ∧ Wire.Awaits ver (stop :: rest) 0 w) := by
  induction ds generalizing fuel val i with
  | nil =>
    obtain ⟨fuel, rfl⟩ := Nat.exists_eq_succ_of_ne_zero (Nat.ne_of_gt hfuel)
    refine space_awaits (by omega) (by simp) (good_status (curr_awaits ?_))
    rw [hstop]
    exact Returns.pure fun w hw => ⟨rfl, hw.toReady, hw.ahead, Nat.zero_le _⟩
  | cons d ds ih =>
    obtain ⟨fuel, rfl⟩ := Nat.exists_eq_succ_of_ne_zero (Nat.ne_of_gt (Nat.zero_lt_of_lt hfuel))
    refine space_awaits (by omega) (by simp) (good_status (curr_awaits ?_))
    rw [hds d List.mem_cons_self]
    exact next_awaits (ih (fun d' hd' => hds d' (List.mem_cons_of_mem _ hd'))
      (Nat.lt_of_succ_lt_succ hfuel))

theorem isDigit_facts {d : SaneByte} (hd : isDigit d = true) : isSpace d = false ∧ d ≠ 0x2d := by
  revert d
  decide +kernel

/-- The digits of a word up to the first byte that is none. -/
theorem asciiWWord_digits {lead ds rest : List SaneByte} {stop : SaneByte}
    (hlead : ∀ b ∈ lead, isSpace b = true) (prior : SaneWord)
    (hds : ∀ d ∈ ds, isDigit d = true) (hstop : isDigit stop = false) (hne : ds ≠ []) :
    Returns (Wire.Awaits ver (lead ++ (ds ++ stop :: rest)) 0) (asciiWWord prior)
      (fun word w => word = ds.foldl addDigit 0 ∧ Wire.Awaits ver (stop :: rest) 0 w) := by
  obtain ⟨d, ds', rfl⟩ := List.exists_cons_of_ne_nil hne
  obtain ⟨hspace, hsign⟩ := isDigit_facts (hds d List.mem_cons_self)
  apply decode_direction
  refine skipWs_awaits hlead hspace (space_awaits (by omega) (by simp) (curr_awaits ?_))
  simp only [hsign, ↓reduceIte]
  refine fuel_awaits fun fuel hfuel => ?_
  have hlength : (d :: ds').length < fuel := by
    refine lt_of_le_of_lt ?_ hfuel
    exact (List.sublist_append_left (d :: ds') (stop :: rest)).length_le
  refine (@getDigits_awaits _ (d :: ds') _ _ _ _ _ hds hstop hlength).bind fun r => ?_
  rintro w ⟨rfl, hw⟩
  exact ⟨_, w, rfl, rfl, hw⟩

/-- The same behind a sign. -/
theorem asciiWWord_negative {lead ds rest : List SaneByte} {stop : SaneByte}
    (hlead : ∀ b ∈ lead, isSpace b = true) (prior : SaneWord)
    (hds : ∀ d ∈ ds, isDigit d = true) (hstop : isDigit stop = false) :
    Returns (Wire.Awaits ver (lead ++ (0x2d :: ds ++ stop :: rest)) 0) (asciiWWord prior)
      (fun word w => word = -ds.foldl addDigit 0 ∧ Wire.Awaits ver (stop :: rest) 0 w) := by
  apply decode_direction
  refine skipWs_awaits hlead (by decide) (space_awaits (by omega) (by simp) (curr_awaits ?_))
  refine advance_awaits (fuel_awaits fun fuel hfuel => ?_)
  have hlength : ds.length < fuel := by
    refine lt_of_le_of_lt ?_ hfuel
    exact (List.sublist_append_left ds (stop :: rest)).length_le
  refine (getDigits_awaits hds hstop hlength).bind fun r => ?_
  rintro w ⟨rfl, hw⟩
  exact ⟨_, w, rfl, rfl, hw⟩

/-- The last digit of a number. -/
def lastDigit (n : Nat) : SaneByte := BitVec.ofInt 8 (48 + (n % 10 : Nat))

theorem lastDigit_value (n : Nat) :
    isDigit (lastDigit n) = true ∧ (lastDigit n).signExtend 32 - 48 = BitVec.ofNat 32 (n % 10) := by
  have hlt : n % 10 < 10 := Nat.mod_lt n (by decide)
  unfold lastDigit
  interval_cases n % 10 <;> decide

theorem putDigits_succ (fuel n : Nat) (buf : List SaneByte) :
    putDigits (fuel + 1) n buf =
      if n / 10 = 0 then lastDigit n :: buf
      else putDigits fuel (n / 10 : Nat) (lastDigit n :: buf) := by
  have hmod : (n : Int).tmod 10 = (n % 10 : Nat) := by
    rw [Int.tmod_eq_emod_of_nonneg (Int.natCast_nonneg n)]
    rfl
  have hdiv : (n : Int).tdiv 10 = (n / 10 : Nat) := by
    rw [Int.tdiv_eq_ediv_of_nonneg (Int.natCast_nonneg n)]
    rfl
  have hzero : ((n / 10 : Nat) : Int) = 0 ↔ n / 10 = 0 := Int.natCast_eq_zero
  simp only [putDigits, hmod, hdiv, hzero, lastDigit]

/-- The digits of a number are read as that number. -/
theorem putDigits_value {fuel n : Nat} (hn : n < 10 ^ (fuel + 1)) (buf : List SaneByte) :
    ∃ ds, putDigits (fuel + 1) n buf = ds ++ buf ∧ ds ≠ [] ∧ (∀ d ∈ ds, isDigit d = true) ∧
      ds.foldl addDigit 0 = BitVec.ofNat 32 n := by
  have hone (m : Nat) (hm : m / 10 = 0) : addDigit 0 (lastDigit m) = BitVec.ofNat 32 m := by
    rw [addDigit, (lastDigit_value m).2, Nat.mod_eq_of_lt (by omega)]
    simp
  induction fuel generalizing n buf with
  | zero =>
    have hn0 : n / 10 = 0 := by omega
    refine ⟨[lastDigit n], ?_, List.cons_ne_nil _ _, ?_, hone n hn0⟩
    · rw [putDigits_succ, if_pos hn0, List.singleton_append]
    · intro d hd
      rw [List.mem_singleton.mp hd]
      exact (lastDigit_value n).1
  | succ fuel ih =>
    rw [putDigits_succ]
    by_cases hn0 : n / 10 = 0
    · refine ⟨[lastDigit n], ?_, List.cons_ne_nil _ _, ?_, hone n hn0⟩
      · rw [if_pos hn0, List.singleton_append]
      · intro d hd
        rw [List.mem_singleton.mp hd]
        exact (lastDigit_value n).1
    · have hlt : n / 10 < 10 ^ (fuel + 1) := by
        rw [pow_succ] at hn
        omega
      obtain ⟨ds, hds, -, hdigits, hvalue⟩ := ih hlt (lastDigit n :: buf)
      refine ⟨ds ++ [lastDigit n], ?_, by simp, ?_, ?_⟩
      · rw [if_neg hn0, hds, List.append_assoc, List.singleton_append]
      · intro d hd
        rcases List.mem_append.mp hd with hd | hd
        · exact hdigits d hd
        · rw [List.mem_singleton.mp hd]
          exact (lastDigit_value n).1
      · have hten : (10 : SaneWord) = BitVec.ofNat 32 10 := rfl
        rw [List.foldl_append, hvalue, List.foldl_cons, List.foldl_nil, addDigit,
          (lastDigit_value n).2, hten, ← BitVec.ofNat_mul, ← BitVec.ofNat_add]
        congr 1
        omega

/-- A word but the smallest one is the negative of a number with at most ten digits, or is one
    itself. -/
theorem word_magnitude {word : SaneWord} (hword : word ≠ 0x80000000) :
    ∃ n : Nat, n < 10 ^ 10 ∧
      ((word.toInt < 0 ∧ (-word).toInt = n ∧ word = -BitVec.ofNat 32 n) ∨
        (¬ word.toInt < 0 ∧ word.toInt = n ∧ word = BitVec.ofNat 32 n)) := by
  have hne : word.toNat ≠ 2 ^ 31 := fun h => hword (BitVec.eq_of_toNat_eq h)
  have hlt := word.isLt
  have hneg : (-word).toNat = (2 ^ 32 - word.toNat) % 2 ^ 32 := BitVec.toNat_neg word
  simp only [BitVec.toInt_eq_toNat_cond]
  by_cases hbig : 2 ^ 31 ≤ word.toNat
  · refine ⟨2 ^ 32 - word.toNat, by omega, .inl ⟨?_, ?_, ?_⟩⟩
    · rw [if_neg (by omega)]
      omega
    · rw [if_pos (by omega)]
      omega
    · apply BitVec.eq_of_toNat_eq
      rw [BitVec.toNat_neg, BitVec.toNat_ofNat]
      omega
  · refine ⟨word.toNat, by omega, .inr ⟨?_, ?_, ?_⟩⟩
    · rw [if_pos (by omega)]
      omega
    · rw [if_pos (by omega)]
    · apply BitVec.eq_of_toNat_eq
      rw [BitVec.toNat_ofNat]
      omega

/-- All words but the smallest one come back. -/
theorem asciiWWord_awaits {lead rest : List SaneByte} (hlead : ∀ b ∈ lead, isSpace b = true)
    (prior : SaneWord) {word : SaneWord} (hword : word ≠ 0x80000000) :
    Returns (Wire.Awaits ver (lead ++ ((WireItem.word word).text ++ newline :: rest)) 0)
      (asciiWWord prior) (fun word' w => word' = word ∧ Wire.Awaits ver (newline :: rest) 0 w) := by
  rw [WireItem.text, wordText]
  obtain ⟨n, hlt, hcase⟩ := word_magnitude hword
  obtain ⟨ds, hds, hne, hdigits, hvalue⟩ := putDigits_value hlt []
  rcases hcase with ⟨hneg, hn, heq⟩ | ⟨hneg, hn, heq⟩
  · rw [if_pos hneg, hn, hds, List.append_nil]
    refine (asciiWWord_negative hlead prior hdigits (by decide)).conseq (fun _ h => h) ?_
    rintro _ w ⟨rfl, hw⟩
    exact ⟨by rw [hvalue, ← heq], hw⟩
  · rw [if_neg hneg, hn, hds, List.append_nil]
    refine (asciiWWord_digits hlead prior hdigits (by decide) hne).conseq (fun _ h => h) ?_
    rintro _ w ⟨rfl, hw⟩
    exact ⟨by rw [hvalue, ← heq], hw⟩

/-- The smallest word comes back as zero. -/
theorem asciiWWord_smallest {lead rest : List SaneByte} (hlead : ∀ b ∈ lead, isSpace b = true)
    (prior : SaneWord) :
    Returns (Wire.Awaits ver (lead ++ ((WireItem.word 0x80000000).text ++ newline :: rest)) 0)
      (asciiWWord prior) (fun word' _ => word' = 0) := by
  have htext : (WireItem.word 0x80000000).text =
      0x2d :: ([] ++ 0x2e :: (wordText 0x80000000).drop 2) := by decide +kernel
  rw [htext, List.cons_append, List.append_assoc, List.cons_append]
  refine (asciiWWord_negative hlead prior (by simp) (by decide)).conseq (fun _ h => h) ?_
  rintro _ w ⟨rfl, -⟩
  rfl

end SaneBackends
