import SaneBackends.Cells
import SaneBackends.CStrings
import SaneBackends.FaultState
import SaneBackends.InPlace
import Mathlib.Data.List.DropRight

/-!
# Reading a line of a configuration file

`sanei_config_read` of `sanei/sanei_config.c`.  The line is read into a buffer of `n` bytes, the
white space at its end is replaced by NULs, and what is left is moved to the beginning of the
buffer.  The loop that moves it looks for the end of the string where it stores, not where it
reads, so it reads as many bytes behind the end as there were white space bytes in front.
-/

namespace SaneBackends.SaneiConfig

open FaultState InPlace Overwrite

/-! ### `fgets` -/

/-- The next line, of at most `n` bytes. -/
def lineOf : Nat → List SaneByte → List SaneByte
  | 0, _ => []
  | _, [] => []
  | n + 1, b :: bs => if b = 0x0a then [b] else b :: lineOf n bs

/-- `fgets (str, n, stream)`: the buffer of `n` bytes and the rest of the stream. -/
def fgets (str stream : List SaneByte) : Option (List SaneByte × List SaneByte) :=
  if stream = [] then none
  else
    let line := lineOf (str.length - 1) stream
    some (overwrite str 0 (line ++ [0]), stream.drop line.length)

/-! ### `sanei_config_read` -/

/-- Remove ending whitespaces. -/
def trimEnd : Nat → List SaneByte → Except Fault (List SaneByte)
  | 0, str => .ok str
  | len + 1, str => do
    if isSpace (← cellAt str len) then trimEnd len (← setCell str len 0)
    else return str

/-- How many bytes `start` passes over. -/
def skipStart : List SaneByte → Except Fault Nat
  | [] => .error .outOfBounds
  | b :: bs => if isSpace b then (skipStart bs).map (· + 1) else .ok 0

/-- `do { *str++ = *start++; } while (*str)`, with `n` bytes of the buffer from `str` on. -/
def moveDown : Nat → List SaneByte → Nat → Nat → Except Fault (List SaneByte)
  | 0, _, _, _ => .error .outOfBounds
  | n + 1, mem, str, start => do
    let mem ← setCell mem str (← cellAt mem start)
    if (← cellAt mem (str + 1)) = 0 then return mem
    else moveDown n mem (str + 1) (start + 1)

/-- `sanei_config_read (str, n, stream)`, nothing at the end of the stream. -/
def saneiConfigRead (str stream : List SaneByte) :
    Except Fault (Option (List SaneByte × List SaneByte)) :=
  match fgets str stream with
  | none => .ok none
  | some (str, stream) => do
    let str ← trimEnd (← strlen str) str
    let start ← skipStart str
    if start = 0 then return some (str, stream)
    else return some (← moveDown str.length str 0 start, stream)

/-! ### What is left of a line -/

/-- A text without the white space at its end. -/
def trimmed (text : CStr) : CStr := text.rdropWhile isSpace

/-- How much white space is in front of the rest. -/
def leading (text : CStr) : Nat := ((trimmed text).takeWhile isSpace).length

/-- A text without the white space around it. -/
def strip (text : CStr) : CStr := (trimmed text).dropWhile isSpace

theorem trimmed_begins (text : CStr) : trimmed text <+: text := List.rdropWhile_prefix _ _

theorem length_trimmed (text : CStr) :
    (trimmed text).length = leading text + (strip text).length := by
  rw [leading, strip, ← List.length_append, List.takeWhile_append_dropWhile]

/-! ### The line in the buffer -/

theorem length_lineOf_le (n : Nat) (stream : List SaneByte) : (lineOf n stream).length ≤ n := by
  induction n generalizing stream with
  | zero => simp [lineOf]
  | succ n ih =>
    cases stream with
    | nil => simp [lineOf]
    | cons b bs =>
      rw [lineOf]
      split_ifs
      · simp
      · simpa using ih bs

/-- A line that fits is read as a whole. -/
theorem lineOf_append {n : Nat} {line : List SaneByte} (rest : List SaneByte)
    (hline : ∀ b ∈ line, b ≠ 0x0a) (hn : line.length < n) :
    lineOf n (line ++ 0x0a :: rest) = line ++ [0x0a] := by
  induction line generalizing n with
  | nil =>
    obtain ⟨n, rfl⟩ : ∃ m, n = m + 1 := ⟨n - 1, by simp at hn; omega⟩
    simp [lineOf]
  | cons b line ih =>
    obtain ⟨n, rfl⟩ : ∃ m, n = m + 1 := ⟨n - 1, by simp at hn; omega⟩
    rw [List.cons_append, lineOf, if_neg (hline b List.mem_cons_self),
      ih (fun c hc => hline c (List.mem_cons_of_mem b hc)) (by simpa using hn)]
    rfl

/-- The text of a line: what is in front of the first NUL. -/
def textOf (line : List SaneByte) : CStr := cString (line ++ [0])

/-- A line in its buffer is its text, a NUL and other bytes. -/
theorem exists_rest (line rest : List SaneByte) :
    ∃ more, line ++ 0 :: rest = textOf line ++ 0 :: more := by
  induction line with
  | nil => exact ⟨rest, rfl⟩
  | cons b line ih =>
    by_cases hb : b = 0
    · subst hb
      exact ⟨line ++ 0 :: rest, rfl⟩
    · obtain ⟨more, hmore⟩ := ih
      refine ⟨more, ?_⟩
      have htext : textOf (b :: line) = b :: textOf line := cString_cons hb _
      rw [htext, List.cons_append, hmore, List.cons_append]

theorem ne_zero_of_mem_text {line : List SaneByte} {b : SaneByte} (h : b ∈ textOf line) : b ≠ 0 :=
  ne_zero_of_mem_cString h

/-! ### White space at the end -/

/-- The white space behind a text is replaced by NULs. -/
theorem trimEnd_eq (text rest : List SaneByte) :
    trimEnd text.length (text ++ rest) =
      .ok (trimmed text ++ List.replicate (text.length - (trimmed text).length) 0 ++ rest) := by
  induction text using List.reverseRecOn generalizing rest with
  | nil => simp [trimEnd, trimmed]
  | append_singleton text b ih =>
    have hcell : cellAt (text ++ [b] ++ rest) text.length = .ok b := by
      rw [cellAt_eq_ok]
      simp
    have hlen : (text ++ [b]).length = text.length + 1 := by simp
    rw [hlen, trimEnd, hcell]
    by_cases hb : isSpace b = true
    · have hset : setCell (text ++ [b] ++ rest) text.length 0 = .ok (text ++ 0 :: rest) := by
        rw [setCell_of_lt (by simp)]
        simp
      have htrimmed : trimmed (text ++ [b]) = trimmed text :=
        List.rdropWhile_concat_pos _ _ _ hb
      have hle : (trimmed text).length ≤ text.length := (trimmed_begins _).length_le
      have hcount : text.length + 1 - (trimmed text).length =
          (text.length - (trimmed text).length) + 1 := by omega
      simp only [bind, Except.bind, hb, if_true, hset]
      rw [ih, htrimmed, hcount, List.replicate_succ']
      simp
    · have htrimmed : trimmed (text ++ [b]) = text ++ [b] :=
        List.rdropWhile_concat_neg _ _ _ hb
      have hcount : text.length + 1 - (text ++ [b]).length = 0 := by simp
      simp only [bind, Except.bind, hb]
      rw [htrimmed, hcount, List.replicate_zero, List.append_nil]
      rfl

theorem skipStart_eq (text rest : List SaneByte) :
    skipStart (text ++ 0 :: rest) = .ok (text.takeWhile isSpace).length := by
  induction text with
  | nil => rfl
  | cons b text ih =>
    rw [List.cons_append, skipStart, ih]
    by_cases hb : isSpace b = true
    · simp [hb, Except.map]
    · simp [hb]

/-! ### Moving the rest -/

/-- The loop goes on up to the old end of the string, `len`; what it reads begins `gap` bytes
    behind what it stores. -/
theorem moveDown_eq {mem : List SaneByte} {len gap d n : Nat} (hlen : len < mem.length)
    (hnonzero : ∀ k < len, mem[k]? ≠ some 0) (hzero : mem[len]? = some 0) (hd : d < len)
    (hn : mem.length = d + n) (hfit : gap + d ≤ mem.length) :
    moveDown n (overwrite mem 0 (stretch mem gap d)) d (gap + d) =
      if gap + len ≤ mem.length then .ok (overwrite mem 0 (stretch mem gap len))
      else .error .outOfBounds := by
  induction n generalizing d with
  | zero => omega
  | succ n ih =>
    have hstretch := length_stretch hfit
    have hall : (overwrite mem 0 (stretch mem gap d)).length = mem.length :=
      length_overwrite (by omega)
    have hold : ∀ k, d ≤ k → (overwrite mem 0 (stretch mem gap d))[k]? = mem[k]? := by
      intro k hk
      exact getElem?_overwrite_after (by omega) (by omega)
    rw [moveDown]
    by_cases hread : gap + d < mem.length
    · have hcell : cellAt (overwrite mem 0 (stretch mem gap d)) (gap + d) =
          .ok mem[gap + d] := by
        rw [cellAt_eq_ok, hold _ (by omega), List.getElem?_eq_getElem hread]
      have hone : stretch mem (gap + d) 1 = [mem[gap + d]] := by
        rw [stretch, List.take_one_drop_eq_of_lt_length hread]
        rfl
      have hnext : (overwrite mem 0 (stretch mem gap d)).set d mem[gap + d] =
          overwrite mem 0 (stretch mem gap (d + 1)) := by
        rw [stretch_add, hone, overwrite_append (by omega), Nat.zero_add, hstretch,
          overwrite_cons (by omega), overwrite_nil]
      have hset : setCell (overwrite mem 0 (stretch mem gap d)) d mem[gap + d] =
          .ok (overwrite mem 0 (stretch mem gap (d + 1))) := by
        rw [setCell_of_lt (by omega), hnext]
      have hstretch' : (stretch mem gap (d + 1)).length = d + 1 := length_stretch (by omega)
      have htest : cellAt (overwrite mem 0 (stretch mem gap (d + 1))) (d + 1) =
          .ok mem[d + 1] := by
        rw [cellAt_eq_ok, getElem?_overwrite_after (by omega) (by omega),
          List.getElem?_eq_getElem]
      simp only [bind, Except.bind, hcell, hset, htest]
      by_cases hend : d + 1 = len
      · subst hend
        have hnul : mem[d + 1] = 0 := by
          rw [List.getElem?_eq_getElem hlen] at hzero
          exact Option.some.inj hzero
        rw [if_pos hnul, if_pos (by omega)]
        rfl
      · have hne : mem[d + 1] ≠ 0 := by
          have hne := hnonzero (d + 1) (by omega)
          rw [List.getElem?_eq_getElem (by omega)] at hne
          exact fun h => hne (congrArg some h)
        rw [if_neg hne]
        exact ih (by omega) (by omega) (by omega)
    · rw [cellAt_of_ge (by omega), if_neg (by omega)]
      rfl

/-- Moving down a string that begins `gap` bytes behind the start of the buffer. -/
theorem moveDown_string {lead body rest : List SaneByte} (hlead : lead ≠ [])
    (hbody : ∀ b ∈ lead ++ body, b ≠ 0) {n : Nat}
    (hn : (lead ++ body ++ 0 :: rest).length = n) :
    (∃ mem, moveDown n (lead ++ body ++ 0 :: rest) 0 lead.length = .ok mem ∧
      cString mem = body) ↔ 2 * lead.length + body.length ≤ n := by
  have hpos := List.length_pos_iff.mpr hlead
  have hlen : lead.length + body.length < (lead ++ body ++ 0 :: rest).length := by
    simp only [List.length_append, List.length_cons]
    omega
  have hzero : (lead ++ body ++ 0 :: rest)[lead.length + body.length]? = some 0 := by
    rw [← List.length_append, List.getElem?_append_right (Nat.le_refl _), Nat.sub_self]
    rfl
  have hnonzero : ∀ k < lead.length + body.length,
      (lead ++ body ++ 0 :: rest)[k]? ≠ some 0 := by
    intro k hk h
    rw [List.getElem?_append_left (by rw [List.length_append]; exact hk)] at h
    exact hbody 0 (List.mem_of_getElem? h) rfl
  have hrun := @moveDown_eq _ _ lead.length 0 n hlen hnonzero hzero (by omega) (by omega) (by omega)
  have hstart : overwrite (lead ++ body ++ 0 :: rest) 0
      (stretch (lead ++ body ++ 0 :: rest) lead.length 0) = lead ++ body ++ 0 :: rest := by
    rw [stretch, List.take_zero, overwrite_nil]
  rw [hstart, Nat.add_zero] at hrun
  rw [hrun, hn]
  split_ifs with hfit
  · refine ⟨fun _ => by omega, fun _ => ⟨_, rfl, ?_⟩⟩
    -- more than the body has been copied, with the NUL behind it
    obtain ⟨more, hmore⟩ : ∃ more, stretch (lead ++ body ++ 0 :: rest) lead.length
        (lead.length + body.length) = body ++ 0 :: more := by
      refine ⟨rest.take (lead.length - 1), ?_⟩
      have htake : lead.length + body.length - body.length = (lead.length - 1) + 1 := by omega
      rw [stretch, List.append_assoc, List.drop_left, List.take_append,
        List.take_of_length_le (by omega), htake, List.take_succ_cons]
    rw [overwrite, List.take_zero, List.nil_append, hmore, List.append_assoc]
    exact cString_append (fun b hb => hbody b (List.mem_append_right lead hb)) _
  · refine ⟨fun h => ?_, fun h => absurd h (by omega)⟩
    obtain ⟨mem, h, -⟩ := h
    cases h

/-! ### The whole function -/

/-- The buffer holds the line without its white space, and no byte outside of it was touched,
    exactly when twice the white space in front and the rest fit in it. -/
theorem saneiConfigRead_strips {str stream line : List SaneByte} (hstr : str ≠ [])
    (hstream : stream ≠ []) (hread : lineOf (str.length - 1) stream = line) :
    (∃ str', saneiConfigRead str stream = .ok (some (str', stream.drop line.length)) ∧
      cString str' = strip (textOf line)) ↔
    2 * leading (textOf line) + (strip (textOf line)).length ≤ str.length := by
  have hpos := List.length_pos_iff.mpr hstr
  have hline := length_lineOf_le (str.length - 1) stream
  rw [saneiConfigRead, fgets, if_neg hstream]
  dsimp only
  rw [hread] at hline ⊢
  obtain ⟨more, hmore⟩ := exists_rest line (str.drop (line.length + 1))
  have hbuf : overwrite str 0 (line ++ [0]) = textOf line ++ 0 :: more := by
    rw [← hmore, overwrite, List.take_zero, List.nil_append, List.append_assoc, Nat.zero_add,
      List.length_append]
    rfl
  have hlength : (textOf line ++ 0 :: more).length = str.length := by
    rw [← hbuf]
    exact length_overwrite (by simp; omega)
  have hmem : 0 ∈ textOf line ++ 0 :: more := by simp
  have htext : cString (textOf line ++ 0 :: more) = textOf line :=
    cString_append (fun b hb => ne_zero_of_mem_text hb) _
  have hsplit : trimmed (textOf line) =
      (trimmed (textOf line)).takeWhile isSpace ++ strip (textOf line) :=
    List.takeWhile_append_dropWhile.symm
  -- the NUL behind the text that is left
  obtain ⟨rest, hrest⟩ : ∃ rest, trimmed (textOf line) ++
      List.replicate ((textOf line).length - (trimmed (textOf line)).length) 0 ++ 0 :: more =
        trimmed (textOf line) ++ 0 :: rest := by
    cases hcount : (textOf line).length - (trimmed (textOf line)).length with
    | zero => exact ⟨more, by simp⟩
    | succ c => exact ⟨List.replicate c 0 ++ 0 :: more, by simp [List.replicate_succ]⟩
  have htrimlen : (trimmed (textOf line) ++ 0 :: rest).length = str.length := by
    have hle : (trimmed (textOf line)).length ≤ (textOf line).length :=
      (trimmed_begins _).length_le
    rw [← hrest, ← hlength]
    simp only [List.length_append, List.length_replicate]
    omega
  have hnonzero : ∀ b ∈ trimmed (textOf line), b ≠ 0 := fun b hb =>
    ne_zero_of_mem_text ((trimmed_begins _).subset hb)
  rw [hbuf, strlen_of_mem hmem, htext]
  simp only [bind, Except.bind, trimEnd_eq, hrest, skipStart_eq]
  change (∃ str', (if leading (textOf line) = 0 then _ else _) = _ ∧ _) ↔ _
  have hlens := length_trimmed (textOf line)
  split_ifs with hlead
  · have hnone : (trimmed (textOf line)).takeWhile isSpace = [] := List.length_eq_zero_iff.mp hlead
    refine ⟨fun _ => ?_, fun _ => ⟨_, rfl, ?_⟩⟩
    · rw [← htrimlen, List.length_append, List.length_cons]
      omega
    · rw [hsplit, hnone, List.nil_append]
      rw [hsplit, hnone, List.nil_append] at hnonzero
      exact cString_append hnonzero _
  · have hne : (trimmed (textOf line)).takeWhile isSpace ≠ [] := fun h =>
      hlead (List.length_eq_zero_iff.mpr h)
    rw [hsplit] at hnonzero htrimlen
    have hmove := moveDown_string hne hnonzero htrimlen
    rw [← hsplit] at hmove htrimlen
    rw [htrimlen]
    rw [← leading] at hmove ⊢
    rw [← hmove]
    cases moveDown str.length (trimmed (textOf line) ++ 0 :: rest) 0 (leading (textOf line)) with
    | error e =>
      constructor
      · rintro ⟨str', h, -⟩
        cases h
      · rintro ⟨mem, h, -⟩
        cases h
    | ok mem =>
      constructor
      · rintro ⟨str', h, hval⟩
        cases h
        exact ⟨mem, rfl, hval⟩
      · rintro ⟨mem', h, hval⟩
        cases h
        exact ⟨mem, rfl, hval⟩

theorem length_trimEnd {n : Nat} {str str' : List SaneByte} (h : trimEnd n str = .ok str') :
    str'.length = str.length := by
  induction n generalizing str with
  | zero =>
    cases h
    rfl
  | succ n ih =>
    obtain ⟨b, -, h⟩ := bind_eq_ok.mp h
    split_ifs at h
    · obtain ⟨stored, hstored, h⟩ := bind_eq_ok.mp h
      rw [ih h, length_setCell hstored]
    · cases h
      rfl

theorem length_moveDown {n d start : Nat} {mem mem' : List SaneByte}
    (h : moveDown n mem d start = .ok mem') : mem'.length = mem.length := by
  induction n generalizing mem d start with
  | zero => cases h
  | succ n ih =>
    obtain ⟨b, -, h⟩ := bind_eq_ok.mp h
    obtain ⟨stored, hstored, h⟩ := bind_eq_ok.mp h
    obtain ⟨c, -, h⟩ := bind_eq_ok.mp h
    split_ifs at h
    · cases h
      exact length_setCell hstored
    · rw [ih h, length_setCell hstored]

/-- The buffer keeps its length. -/
theorem length_saneiConfigRead {str stream str' stream' : List SaneByte} (hstr : str ≠ [])
    (h : saneiConfigRead str stream = .ok (some (str', stream'))) : str'.length = str.length := by
  have hpos := List.length_pos_iff.mpr hstr
  have hline := length_lineOf_le (str.length - 1) stream
  rw [saneiConfigRead, fgets] at h
  by_cases hstream : stream = []
  · rw [if_pos hstream] at h
    cases h
  · rw [if_neg hstream] at h
    dsimp only at h
    obtain ⟨len, -, h⟩ := bind_eq_ok.mp h
    obtain ⟨ended, hended, h⟩ := bind_eq_ok.mp h
    obtain ⟨start, -, h⟩ := bind_eq_ok.mp h
    have hlen : ended.length = str.length := by
      rw [length_trimEnd hended]
      refine length_overwrite ?_
      rw [List.length_append, List.length_singleton]
      omega
    split_ifs at h
    · cases h
      exact hlen
    · obtain ⟨moved, hmoved, h⟩ := bind_eq_ok.mp h
      cases h
      rw [length_moveDown hmoved, hlen]

/-- A line with white space at both ends, and the beginning of the next one. -/
theorem saneiConfigRead_strips_short :
    ∃ str', saneiConfigRead (List.replicate 8 0) (ascii [' ', 'a', 'b', ' ', '\n', 'c']) =
        .ok (some (str', ascii ['c'])) ∧
      cString str' = ascii ['a', 'b'] := by
  have hstrips := @saneiConfigRead_strips (List.replicate 8 0)
    (ascii [' ', 'a', 'b', ' ', '\n', 'c']) (ascii [' ', 'a', 'b', ' ', '\n']) (by decide)
    (by decide) (by decide)
  obtain ⟨str', hrun, hstr⟩ := hstrips.mpr (by decide)
  exact ⟨str', hrun, hstr.trans (by decide)⟩

/-- Four spaces and three characters in a buffer of eight bytes: the ninth byte is read. -/
theorem saneiConfigRead_strips_wide :
    saneiConfigRead (List.replicate 8 0) (ascii [' ', ' ', ' ', ' ', 'a', 'b', 'c']) =
      .error .outOfBounds := by
  decide

end SaneBackends.SaneiConfig
