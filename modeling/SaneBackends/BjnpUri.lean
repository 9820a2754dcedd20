import SaneBackends.BjnpDevices
import SaneBackends.Cells
import SaneBackends.FaultState
import Mathlib.Data.List.TakeWhile

/-!
# Splitting a URI in memory

`split_uri` of `backend/pixma_bjnp.c` cuts a copy of the URI into pieces and copies each
piece into a buffer of the caller.  `BjnpTable.splitUri` is the same on strings; here are
the blocks of memory, and when the pieces are the ones of a URI
`method://host[:port][/args]`.
-/

namespace SaneBackends.BjnpUri

open Overwrite BjnpTable

/-! ### The source -/

/-- `while ((start[i] != '\0') && !stop (start[i])) i++`. -/
def scanTo (stop : SaneByte → Bool) : List SaneByte → Except Fault Nat
  | [] => .error .outOfBounds
  | b :: bs => if b = 0 ∨ stop b = true then .ok 0 else (scanTo stop bs).map (· + 1)

/-- `strchr (start, c)`: the distance to the first `c`. -/
def strchr (c : SaneByte) : List SaneByte → Except Fault (Option Nat)
  | [] => .error .outOfBounds
  | b :: bs =>
    if b = c then .ok (some 0)
    else if b = 0 then .ok none
    else (strchr c bs).map (Option.map (· + 1))

/-- The buffers of the caller. -/
structure UriBuffers where
  method : List SaneByte
  host : List SaneByte
  port : List SaneByte
  args : List SaneByte
deriving DecidableEq, Repr

/-- "retrieve host": `next`, the host and the block from `start` on. -/
def retrieveHost (host start : List SaneByte) :
    Except Fault (Option (SaneByte × List SaneByte × List SaneByte)) := do
  if (← cellAt start 0) = 0x5b then
    -- a literal IPv6 address
    match ← strchr 0x5d start with
    | none => return none
    | some e => do
      let next ← cellAt start (e + 1)
      if (next ≠ colon ∧ next ≠ slash ∧ next ≠ 0) ∨ e ≥ BJNP_HOST_MAX then return none
      let start ← setCell start e 0
      let host ← strcpy host (start.drop 1)
      return some (next, host, start.drop (e + 2))
  else
    let i ← scanTo (fun c => c = slash ∨ c = colon) start
    let next ← cellAt start i
    let start ← setCell start i 0
    if i = 0 ∨ i ≥ BJNP_HOST_MAX then return none
    let host ← strcpy host start
    return some (next, host, start.drop (i + 1))

attribute [grind =] retrieveHost

/-- "retrieve port number": `next`, the port and the block from `start` on, which is not
    moved behind the port. -/
def retrievePort (next : SaneByte) (port start : List SaneByte) :
    Except Fault (Option (SaneByte × List SaneByte × List SaneByte)) := do
  if next ≠ colon then return some (next, ← strcpy port [0], start)
  let (next, start) ← (do
    match ← strchr slash start with
    | none => return (0, start)
    | some e => return (← cellAt start e, ← setCell start e 0))
  let n ← strlen start
  if n = 0 ∨ n ≥ BJNP_PORT_MAX then return none
  return some (next, ← strcpy port start, start)

/-- "Retrieve arguments"; arguments that are too long are only reported. -/
def retrieveArgs (next : SaneByte) (args start : List SaneByte) :
    Except Fault (List SaneByte) := do
  if next = slash then
    let _ ← strlen start
    strcpy args start
  else strcpy args [0]

/-- `split_uri`; `copy` is its array, `none` the return value -1. -/
def splitUri (copy devname : List SaneByte) (buffers : UriBuffers) :
    Except Fault (Option UriBuffers) := do
  let start ← strcpy copy devname
  let i ← scanTo (fun c => c = colon) start
  let found ← strncmpEqual (start.drop i) [colon, slash, slash, 0] 3
  if found = false ∨ i > BJNP_METHOD_MAX - 1 then return none
  let start ← setCell start i 0
  let method ← strcpy buffers.method start
  match ← retrieveHost buffers.host (start.drop (i + 3)) with
  | none => return none
  | some (next, host, start) =>
    match ← retrievePort next buffers.port start with
    | none => return none
    | some (next, port, start) =>
      let args ← retrieveArgs next buffers.args start
      return some ⟨method, host, port, args⟩

/-! ### Cutting a block -/

section Cutting

variable {s w d rest : List SaneByte} {p stop : SaneByte → Bool} {c : SaneByte}

theorem scanTo_eq (hs : ∀ b ∈ s, b ≠ 0) (hp : ∀ b, p b = !stop b) :
    scanTo stop (s ++ 0 :: rest) = .ok (s.takeWhile p).length := by
  induction s with
  | nil => exact if_pos (.inl rfl)
  | cons b s ih =>
    have hb : b ≠ 0 := hs b List.mem_cons_self
    rw [List.cons_append, scanTo, ih fun x hx => hs x (List.mem_cons_of_mem _ hx)]
    cases hstop : stop b with
    | true =>
      rw [if_pos (.inr rfl), List.takeWhile_cons_of_neg (by rw [hp, hstop]; decide)]
      rfl
    | false =>
      have hgo : ¬(b = 0 ∨ false = true) := by
        rintro (h | h)
        · exact hb h
        · cases h
      rw [if_neg hgo, List.takeWhile_cons_of_pos (by rw [hp, hstop]; rfl)]
      rfl

theorem strchr_eq (hs : ∀ b ∈ s, b ≠ 0) (hc : c ≠ 0) :
    strchr c (s ++ 0 :: rest) =
      .ok (if c ∈ s then some (s.takeWhile (· ≠ c)).length else none) := by
  induction s with
  | nil =>
    rw [List.nil_append, strchr, if_neg hc.symm, if_pos rfl]
    rfl
  | cons b s ih =>
    have hb : b ≠ 0 := hs b List.mem_cons_self
    rw [List.cons_append, strchr, ih fun x hx => hs x (List.mem_cons_of_mem _ hx)]
    by_cases hbc : b = c
    · subst hbc
      rw [if_pos rfl, if_pos List.mem_cons_self, List.takeWhile_cons_of_neg (by simp)]
      rfl
    · have hmem : c ∈ b :: s ↔ c ∈ s := by
        rw [List.mem_cons]
        exact or_iff_right fun h => hbc h.symm
      rw [if_neg hbc, if_neg hb, List.takeWhile_cons_of_pos (by simpa using hbc)]
      by_cases hcs : c ∈ s
      · rw [if_pos hcs, if_pos (hmem.mpr hcs)]
        rfl
      · rw [if_neg hcs, if_neg fun h => hcs (hmem.mp h)]
        rfl

/-- A piece ends at the first character that `p` excludes. -/
theorem piece_eq (hw : ∀ b ∈ w, p b = true) (hd : ∀ x ∈ d.head?, p x = false) :
    (w ++ d).takeWhile p = w ∧ (w ++ d).dropWhile p = d := by
  rw [List.takeWhile_append_of_pos hw, List.dropWhile_append_of_pos hw]
  cases d with
  | nil => simp
  | cons x d =>
    have hx : p x = false := hd x rfl
    rw [List.takeWhile_cons_of_neg (by rw [hx]; decide), List.append_nil,
      List.dropWhile_cons_of_neg (by rw [hx]; decide)]
    exact ⟨rfl, rfl⟩

/-- The character behind the piece `w`. -/
theorem cellAt_cut : cellAt (w ++ d ++ 0 :: rest) w.length = .ok (d.headD 0) := by
  rw [cellAt_eq_ok, List.append_assoc, List.getElem?_append_right (Nat.le_refl _), Nat.sub_self]
  cases d with
  | nil => rfl
  | cons x d => rfl

/-- A NUL behind the piece `w` ends it there. -/
theorem setCell_cut :
    setCell (w ++ d ++ 0 :: rest) w.length 0 = .ok (w ++ 0 :: (d ++ 0 :: rest).drop 1) := by
  rw [setCell_of_lt (by simp), List.append_assoc, List.set_append_right _ _ (Nat.le_refl _),
    Nat.sub_self]
  cases d with
  | nil => rfl
  | cons x d => rfl

theorem strcpy_piece {dest : List SaneByte} (hw : ∀ b ∈ w, b ≠ 0) (hlen : w.length < dest.length) :
    strcpy dest (w ++ 0 :: rest) = .ok (overwrite dest 0 (w ++ [0])) := by
  rw [strcpy_eq (by simp), cString_append hw, if_pos (Nat.succ_le_of_lt hlen)]

theorem strcpy_empty {dest : List SaneByte} (hlen : 0 < dest.length) :
    strcpy dest [0] = .ok (overwrite dest 0 ([] ++ [0])) :=
  if_pos hlen

end Cutting

/-! ### The pieces -/

/-- What the source holds when the string from `start` on is `st`, and `nx` the character in
    front of it that was cut away. -/
structure Follows (nx : Option SaneByte) (st : CStr) (next : SaneByte) (start : List SaneByte) :
    Prop where
  next_eq : next = nx.getD 0
  nonzero : nx ≠ some 0
  text : ∀ b ∈ st, b ≠ 0
  start_eq : nx ≠ none → ∃ rest, start = st ++ 0 :: rest

theorem follows_cut {d rest : List SaneByte} (hd : ∀ b ∈ d, b ≠ 0) :
    Follows d.head? d.tail (d.headD 0) ((d ++ 0 :: rest).drop 1) := by
  cases d with
  | nil => exact ⟨rfl, by simp, by simp, fun h => absurd rfl h⟩
  | cons x d =>
    refine ⟨rfl, ?_, fun b hb => hd b (List.mem_cons_of_mem _ hb), fun _ => ⟨rest, rfl⟩⟩
    intro h
    exact hd x List.mem_cons_self (Option.some.inj h)

/-! ### The host -/

section Host

variable {w d rest host : List SaneByte}

/-- A literal address is taken when a port, arguments or nothing follows and it is not too
    long. -/
def literalTaken (w behind : List SaneByte) : Prop :=
  (behind.head? = some colon ∨ behind.head? = some slash ∨ behind = []) ∧
    w.length < BJNP_HOST_MAX

instance (w behind : List SaneByte) : Decidable (literalTaken w behind) :=
  inferInstanceAs (Decidable (_ ∧ _))

theorem literal_piece (hw : ∀ b ∈ w, b ≠ 0x5d) :
    (w ++ 0x5d :: d).takeWhile (· ≠ 0x5d) = w ∧
      (w ++ 0x5d :: d).dropWhile (· ≠ 0x5d) = 0x5d :: d := by
  apply piece_eq
  · exact fun b hb => decide_eq_true (hw b hb)
  · rintro _ ⟨rfl⟩
    decide

theorem splitHost_literal (hfirst : w.head? = some 0x5b) (hw : ∀ b ∈ w, b ≠ 0x5d) :
    splitHost (w ++ 0x5d :: d) =
      if literalTaken w d then some (w.tail, d.head?, d.tail) else none := by
  have hhead : (w ++ 0x5d :: d).head? = some 0x5b := by
    rw [List.head?_append, hfirst]
    rfl
  unfold splitHost
  rw [if_pos hhead, (literal_piece hw).1, (literal_piece hw).2]
  dsimp only
  by_cases htaken : literalTaken w d
  · rw [if_pos htaken, if_neg]
    obtain ⟨hnext, hlen⟩ := htaken
    rintro (⟨hcolon, hslash, hnil⟩ | hlong)
    · rcases hnext with h | h | rfl
      · exact hcolon h
      · exact hslash h
      · exact hnil rfl
    · omega
  · rw [if_neg htaken, if_pos]
    by_contra hnot
    rw [not_or, not_and_or, not_and_or, not_not, not_not, not_not, List.head?_eq_none_iff,
      not_le] at hnot
    exact htaken hnot

/-- The source tests the character behind the address, which is NUL where nothing follows. -/
theorem literalTaken_iff (hd : ∀ b ∈ d, b ≠ 0) :
    ((d.headD 0 ≠ colon ∧ d.headD 0 ≠ slash ∧ d.headD 0 ≠ 0) ∨ w.length ≥ BJNP_HOST_MAX) ↔
      ¬literalTaken w d := by
  cases d with
  | nil => simp [literalTaken]
  | cons x d =>
    have hx : x ≠ 0 := hd x List.mem_cons_self
    simp only [literalTaken, List.headD_cons, List.head?_cons, Option.some.injEq,
      List.cons_ne_nil, or_false, not_and_or, not_or, not_lt]
    constructor
    · rintro (⟨hcolon, hslash, _⟩ | hlong)
      · exact .inl ⟨hcolon, hslash⟩
      · exact .inr hlong
    · rintro (⟨hcolon, hslash⟩ | hlong)
      · exact .inl ⟨hcolon, hslash, hx⟩
      · exact .inr hlong

theorem retrieveHost_literal (hfirst : w.head? = some 0x5b) (hw : ∀ b ∈ w, b ≠ 0 ∧ b ≠ 0x5d)
    (hd : ∀ b ∈ d, b ≠ 0) (hhost : host.length = BJNP_HOST_MAX) :
    retrieveHost host (w ++ 0x5d :: d ++ 0 :: rest) =
      if literalTaken w d then
        .ok (some (d.headD 0, overwrite host 0 (w.tail ++ [0]), (d ++ 0 :: rest).drop 1))
      else .ok none := by
  have hs : ∀ b ∈ w ++ 0x5d :: d, b ≠ 0 := by
    intro b hb
    rcases List.mem_append.mp hb with hb | hb
    · exact (hw b hb).1
    · rcases List.mem_cons.mp hb with rfl | hb
      · decide
      · exact hd b hb
  have hcell : cellAt (w ++ 0x5d :: d ++ 0 :: rest) 0 = .ok 0x5b := by
    rw [cellAt_eq_ok, ← List.head?_eq_getElem?, List.append_assoc, List.head?_append, hfirst]
    rfl
  have hchr : strchr 0x5d (w ++ 0x5d :: d ++ 0 :: rest) = .ok (some w.length) := by
    rw [strchr_eq hs (by decide), if_pos (by simp), (literal_piece fun b hb => (hw b hb).2).1]
  have hnext : cellAt (w ++ 0x5d :: d ++ 0 :: rest) (w.length + 1) = .ok (d.headD 0) := by
    rw [cellAt_eq_ok, List.append_assoc, List.getElem?_append_right (by omega),
      Nat.add_sub_cancel_left]
    cases d with
    | nil => rfl
    | cons x d => rfl
  have hset : setCell (w ++ 0x5d :: d ++ 0 :: rest) w.length 0 = .ok (w ++ 0 :: (d ++ 0 :: rest)) :=
    setCell_cut
  unfold retrieveHost
  rw [hcell, FaultState.ok_bind, if_pos rfl, hchr, FaultState.ok_bind]
  dsimp only
  rw [hnext, FaultState.ok_bind]
  by_cases htaken : literalTaken w d
  · rw [if_neg (fun h => (literalTaken_iff hd).mp h htaken), if_pos htaken, hset,
      FaultState.ok_bind]
    obtain ⟨w', rfl⟩ : ∃ w', w = 0x5b :: w' := List.head?_eq_some_iff.mp hfirst
    have hw' : ∀ b ∈ w', b ≠ 0 := fun b hb => (hw b (List.mem_cons_of_mem _ hb)).1
    have hlen : w'.length < host.length := by
      have hshort := htaken.2
      rw [List.length_cons] at hshort
      omega
    have hdrop : (0x5b :: w' ++ 0 :: (d ++ 0 :: rest)).drop 1 = w' ++ 0 :: (d ++ 0 :: rest) := rfl
    have hbehind : (0x5b :: w' ++ 0 :: (d ++ 0 :: rest)).drop ((0x5b :: w' : CStr).length + 2) =
        (d ++ 0 :: rest).drop 1 := by
      rw [← List.drop_drop, List.drop_left]
      rfl
    rw [hdrop, strcpy_piece hw' hlen, FaultState.ok_bind, hbehind]
    rfl
  · rw [if_pos ((literalTaken_iff hd).mpr htaken), if_neg htaken]
    rfl

theorem name_piece (hw : ∀ b ∈ w, b ≠ slash ∧ b ≠ colon)
    (hd : ∀ x ∈ d.head?, x = slash ∨ x = colon) :
    (w ++ d).takeWhile (fun c => c ≠ slash ∧ c ≠ colon) = w ∧
      (w ++ d).dropWhile (fun c => c ≠ slash ∧ c ≠ colon) = d := by
  apply piece_eq
  · exact fun b hb => decide_eq_true (hw b hb)
  · intro x hx
    apply decide_eq_false
    rintro ⟨hslash, hcolon⟩
    rcases hd x hx with h | h
    · exact hslash h
    · exact hcolon h

theorem head?_ne_bracket (hfirst : w.head? ≠ some 0x5b)
    (hd : ∀ x ∈ d.head?, x = slash ∨ x = colon) : (w ++ d).head? ≠ some 0x5b := by
  cases w with
  | nil =>
    intro h
    rcases hd 0x5b h with h | h
    · exact absurd h (by decide)
    · exact absurd h (by decide)
  | cons x w => exact hfirst

/-- A name is taken when it is not empty and not too long. -/
theorem splitHost_name (hfirst : w.head? ≠ some 0x5b) (hw : ∀ b ∈ w, b ≠ slash ∧ b ≠ colon)
    (hd : ∀ x ∈ d.head?, x = slash ∨ x = colon) :
    splitHost (w ++ d) =
      if w.length = 0 ∨ w.length ≥ BJNP_HOST_MAX then none else some (w, d.head?, d.tail) := by
  unfold splitHost
  rw [if_neg (head?_ne_bracket hfirst hd)]
  simp only [(name_piece hw hd).1, (name_piece hw hd).2]

theorem retrieveHost_name (hfirst : w.head? ≠ some 0x5b)
    (hw : ∀ b ∈ w, b ≠ 0 ∧ b ≠ slash ∧ b ≠ colon) (hd : ∀ x ∈ d.head?, x = slash ∨ x = colon)
    (hzero : ∀ b ∈ d, b ≠ 0) (hhost : host.length = BJNP_HOST_MAX) :
    retrieveHost host (w ++ d ++ 0 :: rest) =
      if w.length = 0 ∨ w.length ≥ BJNP_HOST_MAX then .ok none
      else .ok (some (d.headD 0, overwrite host 0 (w ++ [0]), (d ++ 0 :: rest).drop 1)) := by
  have hs : ∀ b ∈ w ++ d, b ≠ 0 := by
    intro b hb
    rcases List.mem_append.mp hb with hb | hb
    · exact (hw b hb).1
    · exact hzero b hb
  have hcell : ∃ x, cellAt (w ++ d ++ 0 :: rest) 0 = .ok x ∧ x ≠ 0x5b := by
    have hhead := head?_ne_bracket hfirst hd
    cases hwd : w ++ d with
    | nil => exact ⟨0, rfl, by decide⟩
    | cons x l =>
      rw [hwd] at hhead
      exact ⟨x, rfl, fun h => hhead (congrArg some h)⟩
  obtain ⟨x, hcell, hx⟩ := hcell
  have hscan := @scanTo_eq (w ++ d) rest (fun c => c ≠ slash ∧ c ≠ colon)
    (fun c => c = slash ∨ c = colon) hs (by intro b; simp)
  rw [(name_piece (fun b hb => (hw b hb).2) hd).1] at hscan
  unfold retrieveHost
  rw [hcell, FaultState.ok_bind, if_neg hx, hscan, FaultState.ok_bind, cellAt_cut,
    FaultState.ok_bind, setCell_cut, FaultState.ok_bind]
  split
  · rfl
  case isFalse htaken =>
    have hlen : w.length < host.length := by omega
    have hbehind : (w ++ 0 :: (d ++ 0 :: rest).drop 1).drop (w.length + 1) =
        (d ++ 0 :: rest).drop 1 := by
      rw [← List.drop_drop, List.drop_left]
      rfl
    rw [strcpy_piece (fun b hb => (hw b hb).1) hlen, FaultState.ok_bind, hbehind]
    rfl

/-- A bracket that is not closed, a literal address, or a name. -/
theorem host_cases (s : CStr) :
    (s.head? = some 0x5b ∧ 0x5d ∉ s) ∨
    (∃ w d, s = w ++ 0x5d :: d ∧ w.head? = some 0x5b ∧ ∀ b ∈ w, b ≠ 0x5d) ∨
    ∃ w d, s = w ++ d ∧ w.head? ≠ some 0x5b ∧ (∀ b ∈ w, b ≠ slash ∧ b ≠ colon) ∧
      ∀ x ∈ d.head?, x = slash ∨ x = colon := by
  by_cases hfirst : s.head? = some 0x5b
  · by_cases hmem : (0x5d : SaneByte) ∈ s
    · obtain ⟨w, d, rfl, hw⟩ := List.eq_append_cons_of_mem hmem
      refine .inr (.inl ⟨w, d, rfl, ?_, fun b hb h => hw (h ▸ hb)⟩)
      cases w with
      | nil => exact absurd (Option.some.inj hfirst) (by decide)
      | cons x w => exact hfirst
    · exact .inl ⟨hfirst, hmem⟩
  · refine .inr (.inr ⟨s.takeWhile (fun c => c ≠ slash ∧ c ≠ colon),
      s.dropWhile (fun c => c ≠ slash ∧ c ≠ colon), List.takeWhile_append_dropWhile.symm,
      ?_, ?_, ?_⟩)
    · cases s with
      | nil => exact hfirst
      | cons x s =>
        intro h
        rw [List.takeWhile_cons] at h
        split at h
        · exact hfirst h
        · cases h
    · intro b hb
      have hp := List.mem_takeWhile_imp hb
      simpa using hp
    · intro x hx
      have hnot := List.head?_dropWhile_not (fun c => decide (c ≠ slash ∧ c ≠ colon)) s
      rw [hx] at hnot
      by_contra h
      rw [not_or] at h
      simp [h] at hnot

theorem splitHost_unclosed {s : CStr} (hfirst : s.head? = some 0x5b) (hmem : 0x5d ∉ s) :
    splitHost s = none := by
  have hdrop : s.dropWhile (· ≠ 0x5d) = [] :=
    List.dropWhile_eq_nil_iff.mpr fun b hb => decide_eq_true fun h => hmem (h ▸ hb)
  unfold splitHost
  rw [if_pos hfirst, hdrop]

end Host

/-! ### The blocks and the strings -/

section Refinement

variable {s st rest host port args start : List SaneByte} {nx : Option SaneByte} {next : SaneByte}

theorem retrieveHost_eq (hs : ∀ b ∈ s, b ≠ 0) (hhost : host.length = BJNP_HOST_MAX) :
    match splitHost s with
    | none => retrieveHost host (s ++ 0 :: rest) = .ok none
    | some (h, nx, st) => ∃ next start, retrieveHost host (s ++ 0 :: rest) =
        .ok (some (next, overwrite host 0 (h ++ [0]), start)) ∧
      Follows nx st next start ∧ ∀ b ∈ h, b ≠ 0 := by
  rcases host_cases s with ⟨hfirst, hmem⟩ | ⟨w, d, rfl, hfirst, hw⟩ | ⟨w, d, rfl, hfirst, hw, hd⟩
  · have hcell : cellAt (s ++ 0 :: rest) 0 = .ok 0x5b := by
      rw [cellAt_eq_ok, ← List.head?_eq_getElem?, List.head?_append, hfirst]
      rfl
    rw [splitHost_unclosed hfirst hmem]
    unfold retrieveHost
    rw [hcell, FaultState.ok_bind, if_pos rfl, strchr_eq hs (by decide), if_neg hmem,
      FaultState.ok_bind]
    rfl
  · have hwd : ∀ b ∈ w, b ≠ 0 ∧ b ≠ 0x5d := fun b hb =>
      ⟨hs b (List.mem_append_left _ hb), hw b hb⟩
    have hd : ∀ b ∈ d, b ≠ 0 := fun b hb => hs b (by simp [hb])
    rw [splitHost_literal hfirst hw, retrieveHost_literal hfirst hwd hd hhost]
    by_cases htaken : literalTaken w d
    · rw [if_pos htaken, if_pos htaken]
      exact ⟨_, _, rfl, follows_cut hd, fun b hb => (hwd b (List.mem_of_mem_tail hb)).1⟩
    · rw [if_neg htaken, if_neg htaken]
  · have hwd : ∀ b ∈ w, b ≠ 0 ∧ b ≠ slash ∧ b ≠ colon := fun b hb =>
      ⟨hs b (List.mem_append_left _ hb), hw b hb⟩
    have hzero : ∀ b ∈ d, b ≠ 0 := fun b hb => hs b (List.mem_append_right _ hb)
    rw [splitHost_name hfirst hw hd, retrieveHost_name hfirst hwd hd hzero hhost]
    by_cases hbad : w.length = 0 ∨ w.length ≥ BJNP_HOST_MAX
    · rw [if_pos hbad, if_pos hbad]
    · rw [if_neg hbad, if_neg hbad]
      exact ⟨_, _, rfl, follows_cut hzero, fun b hb => (hwd b hb).1⟩

theorem retrievePort_eq (hfollows : Follows nx st next start)
    (hport : port.length = BJNP_PORT_MAX) :
    match splitPort nx st with
    | none => retrievePort next port start = .ok none
    | some (p, nx', st') => ∃ next' start', retrievePort next port start =
        .ok (some (next', overwrite port 0 (p ++ [0]), start')) ∧
      Follows nx' st' next' start' ∧ ∀ b ∈ p, b ≠ 0 := by
  have hsize : BJNP_PORT_MAX = 64 := rfl
  unfold splitPort retrievePort
  by_cases hcolon : nx = some colon
  · have hnext : next = colon := by rw [hfollows.next_eq, hcolon]; rfl
    obtain ⟨rest, rfl⟩ := hfollows.start_eq (by rw [hcolon]; exact Option.some_ne_none _)
    have hcut : st.takeWhile (· ≠ slash) ++ st.dropWhile (· ≠ slash) = st :=
      List.takeWhile_append_dropWhile
    have hw : ∀ b ∈ st.takeWhile (· ≠ slash), b ≠ 0 :=
      fun b hb => hfollows.text b ((List.takeWhile_sublist _).subset hb)
    -- the port is the piece in front of the slash, or all that is left
    have hpiece : ∃ next' rest', (do
        match ← strchr slash (st ++ 0 :: rest) with
        | none => return (0, st ++ 0 :: rest)
        | some e => return (← cellAt (st ++ 0 :: rest) e, ← setCell (st ++ 0 :: rest) e 0)) =
          (.ok (next', st.takeWhile (· ≠ slash) ++ 0 :: rest') :
            Except Fault (SaneByte × List SaneByte)) ∧
        next' = (if slash ∈ st then some slash else none).getD 0 := by
      rw [strchr_eq hfollows.text (by decide), FaultState.ok_bind]
      by_cases hmem : slash ∈ st
      · have hslash : (st.dropWhile (· ≠ slash)).headD 0 = slash := by
          obtain ⟨w, d, rfl, hnot⟩ := List.eq_append_cons_of_mem hmem
          rw [(@piece_eq w (slash :: d) (· ≠ slash)
            (fun b hb => decide_eq_true fun h => hnot (h ▸ hb)) (by rintro _ ⟨rfl⟩; rfl)).2]
          rfl
        have hcell := @cellAt_cut (st.takeWhile (· ≠ slash)) (st.dropWhile (· ≠ slash)) rest
        have hset := @setCell_cut (st.takeWhile (· ≠ slash)) (st.dropWhile (· ≠ slash)) rest
        rw [hcut] at hcell hset
        rw [if_pos hmem, if_pos hmem]
        dsimp only
        rw [hcell, FaultState.ok_bind, hset, FaultState.ok_bind]
        exact ⟨_, _, rfl, hslash⟩
      · have hall : st.takeWhile (· ≠ slash) = st :=
          List.takeWhile_eq_self_iff.mpr fun b hb => decide_eq_true fun h => hmem (h ▸ hb)
        rw [if_neg hmem, if_neg hmem, hall]
        exact ⟨_, _, rfl, rfl⟩
    obtain ⟨next', rest', hpiece, hnext'⟩ := hpiece
    rw [if_neg (not_not.mpr hcolon), if_neg (not_not.mpr hnext), hpiece, FaultState.ok_bind]
    dsimp only
    rw [strlen_of_mem (by simp), cString_append hw, FaultState.ok_bind]
    by_cases hbad : (st.takeWhile (· ≠ slash)).length = 0 ∨
        (st.takeWhile (· ≠ slash)).length ≥ BJNP_PORT_MAX
    · rw [if_pos hbad, if_pos hbad]
      rfl
    · rw [if_neg hbad, if_neg hbad, strcpy_piece hw (by omega), FaultState.ok_bind]
      refine ⟨next', _, rfl, ⟨hnext', ?_, hw, fun _ => ⟨rest', rfl⟩⟩, hw⟩
      split_ifs <;> decide
  · have hnext : next ≠ colon := by
      rw [hfollows.next_eq]
      cases nx with
      | none => decide
      | some x => exact fun h => hcolon (congrArg some h)
    have hcopy : strcpy port [0] = .ok (overwrite port 0 ([] ++ [0])) :=
      strcpy_empty (by omega)
    rw [if_pos hcolon, if_pos hnext, hcopy]
    exact ⟨next, start, rfl, hfollows, by simp⟩

theorem retrieveArgs_eq (hfollows : Follows nx st next start)
    (hargs : args.length = BJNP_ARGS_MAX) :
    retrieveArgs next args start =
      if nx ≠ some slash then .ok (overwrite args 0 ([] ++ [0]))
      else if st.length ≥ BJNP_ARGS_MAX then .error .outOfBounds
      else .ok (overwrite args 0 (st ++ [0])) := by
  unfold retrieveArgs
  by_cases hslash : nx = some slash
  · have hnext : next = slash := by rw [hfollows.next_eq, hslash]; rfl
    obtain ⟨rest, rfl⟩ := hfollows.start_eq (by rw [hslash]; exact Option.some_ne_none _)
    have hmem : (0 : SaneByte) ∈ st ++ 0 :: rest := by simp
    rw [if_pos hnext, if_neg (not_not.mpr hslash), strlen_of_mem hmem, FaultState.ok_bind,
      strcpy_eq hmem, cString_append hfollows.text]
    split_ifs with h h' h'
    · omega
    · rfl
    · rfl
    · omega
  · have hnext : next ≠ slash := by
      rw [hfollows.next_eq]
      cases nx with
      | none => decide
      | some x => exact fun h => hslash (congrArg some h)
    rw [if_neg hnext, if_pos hslash]
    exact strcpy_empty (by rw [hargs]; decide)

/-- The buffers that hold the pieces of `u`. -/
def UriBuffers.store (buffers : UriBuffers) (u : Uri) : UriBuffers where
  method := overwrite buffers.method 0 (u.method ++ [0])
  host := overwrite buffers.host 0 (u.host ++ [0])
  port := overwrite buffers.port 0 (u.port ++ [0])
  args := overwrite buffers.args 0 (u.args ++ [0])

/-- The buffers of the caller have the sizes that are documented. -/
structure UriBuffers.Sized (buffers : UriBuffers) : Prop where
  method : buffers.method.length = BJNP_METHOD_MAX
  host : buffers.host.length = BJNP_HOST_MAX
  port : buffers.port.length = BJNP_PORT_MAX
  args : buffers.args.length = BJNP_ARGS_MAX

/-- No piece contains a NUL. -/
structure Nonzero (u : Uri) : Prop where
  method : ∀ b ∈ u.method, b ≠ 0
  host : ∀ b ∈ u.host, b ≠ 0
  port : ∀ b ∈ u.port, b ≠ 0
  args : ∀ b ∈ u.args, b ≠ 0

/-- The source looks for the two slashes in the block from the colon on. -/
theorem found_iff {d : CStr} (hd : ∀ b ∈ d, b ≠ 0) :
    strncmpEqual (d ++ 0 :: rest) [colon, slash, slash, 0] 3 =
      .ok (decide (d.take 3 = [colon, slash, slash])) := by
  have hmark : cString [colon, slash, slash, 0] = [colon, slash, slash] := rfl
  rw [strncmpEqual, @strnEqual_eq id (fun b => Iff.rfl) 3 _ _ (by simp) (by decide),
    cString_append hd, hmark, List.map_id, List.map_id]
  rfl

/-- In memory the pieces of the string are stored in the buffers, or the copy or the
    arguments leave their block. -/
theorem splitUri_eq {copy : List SaneByte} {buffers : UriBuffers} (hcopy : copy.length = 1024)
    (hsized : buffers.Sized) (hs : ∀ b ∈ s, b ≠ 0) :
    match BjnpTable.splitUri s with
    | .error _ => splitUri copy (s ++ 0 :: rest) buffers = .error .outOfBounds
    | .ok none => splitUri copy (s ++ 0 :: rest) buffers = .ok none
    | .ok (some u) =>
      splitUri copy (s ++ 0 :: rest) buffers = .ok (some (buffers.store u)) ∧ Nonzero u := by
  have hsize : BJNP_METHOD_MAX = 16 := rfl
  have hmem : (0 : SaneByte) ∈ s ++ 0 :: rest := by simp
  unfold BjnpTable.splitUri splitUri
  rw [strcpy_eq hmem, cString_append hs]
  by_cases hlong : s.length ≥ 1024
  · have hnot : ¬s.length + 1 ≤ copy.length := by omega
    rw [if_pos hlong, if_neg hnot, FaultState.error_bind]
  have hfits : s.length + 1 ≤ copy.length := by omega
  have hblock : overwrite copy 0 (s ++ [0]) = s ++ 0 :: copy.drop (s.length + 1) := by
    simp [overwrite]
  have hsplit : s.takeWhile (· ≠ colon) ++ s.dropWhile (· ≠ colon) = s :=
    List.takeWhile_append_dropWhile
  have hm : ∀ b ∈ s.takeWhile (· ≠ colon), b ≠ 0 :=
    fun b hb => hs b ((List.takeWhile_sublist _).subset hb)
  have hd : ∀ b ∈ s.dropWhile (· ≠ colon), b ≠ 0 :=
    fun b hb => hs b ((List.dropWhile_sublist _).subset hb)
  have hscan := @scanTo_eq s (copy.drop (s.length + 1)) (· ≠ colon) (· = colon) hs
    (by intro b; simp)
  rw [if_neg hlong, if_pos hfits, FaultState.ok_bind, hblock, hscan, FaultState.ok_bind]
  generalize copy.drop (s.length + 1) = behind at *
  generalize s.takeWhile (· ≠ colon) = m at *
  generalize s.dropWhile (· ≠ colon) = d at *
  subst hsplit
  have hdrop : (m ++ d ++ 0 :: behind).drop m.length = d ++ 0 :: behind := by
    rw [List.append_assoc, List.drop_left]
  rw [hdrop, found_iff hd, FaultState.ok_bind]
  by_cases hbad : d.take 3 ≠ [colon, slash, slash] ∨ m.length > BJNP_METHOD_MAX - 1
  · have hstop : decide (d.take 3 = [colon, slash, slash]) = false ∨
        m.length > BJNP_METHOD_MAX - 1 := hbad.imp_left decide_eq_false
    rw [if_pos hbad, if_pos hstop]
    rfl
  have hgo : ¬(decide (d.take 3 = [colon, slash, slash]) = false ∨
      m.length > BJNP_METHOD_MAX - 1) := fun h => hbad (h.imp_left of_decide_eq_false)
  rw [if_neg hbad, if_neg hgo, setCell_cut, FaultState.ok_bind,
    strcpy_piece hm (by rw [hsized.method]; omega), FaultState.ok_bind]
  obtain ⟨t, rfl⟩ : ∃ t, d = colon :: slash :: slash :: t := by
    rw [not_or, not_not] at hbad
    refine ⟨d.drop 3, ?_⟩
    rw [← List.take_append_drop 3 d, hbad.1]
    rfl
  have ht : ∀ b ∈ t, b ≠ 0 := fun b hb => hd b (by simp [hb])
  have hbehind : (m ++ 0 :: (colon :: slash :: slash :: t ++ 0 :: behind).drop 1).drop
      (m.length + 3) = t ++ 0 :: behind := by
    rw [← List.drop_drop, List.drop_left]
    rfl
  have htext : (colon :: slash :: slash :: t).drop 3 = t := rfl
  rw [hbehind, htext]
  have hhost := @retrieveHost_eq t behind buffers.host ht hsized.host
  cases hsplit : splitHost t with
  | none =>
    rw [hsplit] at hhost
    dsimp only at hhost ⊢
    rw [hhost]
    rfl
  | some pieces =>
    obtain ⟨h, nx, st⟩ := pieces
    rw [hsplit] at hhost
    obtain ⟨next, start, hrun, hfollows, hh⟩ := hhost
    rw [hrun, FaultState.ok_bind]
    dsimp only
    have hport := retrievePort_eq hfollows hsized.port
    cases hsplit' : splitPort nx st with
    | none =>
      rw [hsplit'] at hport
      dsimp only at hport ⊢
      rw [hport]
      rfl
    | some pieces =>
      obtain ⟨p, nx', st'⟩ := pieces
      rw [hsplit'] at hport
      obtain ⟨next', start', hrun', hfollows', hp⟩ := hport
      rw [hrun', FaultState.ok_bind]
      dsimp only
      rw [retrieveArgs_eq hfollows' hsized.args]
      by_cases hslash : nx' ≠ some slash
      · rw [if_pos hslash, if_pos hslash]
        exact ⟨rfl, hm, hh, hp, by simp⟩
      · rw [if_neg hslash, if_neg hslash]
        by_cases hargs : st'.length ≥ BJNP_ARGS_MAX
        · rw [if_pos hargs, if_pos hargs]
          rfl
        · rw [if_neg hargs, if_neg hargs]
          exact ⟨rfl, hm, hh, hp, hfollows'.text⟩

end Refinement

end SaneBackends.BjnpUri
