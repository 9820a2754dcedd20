import SaneBackends.FaultState
import SaneBackends.ScanimageVectorRead

/-!
# When vectors are read as the grammar says

The string determines the elements.  What the loop stores for them is what they denote, unless a
dash leads down or a value does not fit.
-/

namespace SaneBackends.ScanimageVector

open FaultState

variable {c : Conversion} {o : VectorOption} {e e' : Element} {els els' : Elements} {s r r' : CStr}
  {unit : SaneUnit} {prev : Int} {value : SaneWord}

/-! ### The string determines the vector -/

theorem numeral_unique {n n' : Numeral} (h : n.text ++ r = n'.text ++ r') (hr : NoDigit r)
    (hr' : NoDigit r') : n = n' ∧ r = r' := by
  have hread := n.read_append hr
  rw [h, n'.read_append hr'] at hread
  cases hread
  exact ⟨rfl, rfl⟩

theorem element_unique (h : e.text ++ r = e'.text ++ r') (hf : factor unit e.suffix ≠ none)
    (hf' : factor unit e'.suffix ≠ none) (hr : Ends r) (hr' : Ends r') : e = e' ∧ r = r' := by
  obtain ⟨f, hf⟩ := Option.ne_none_iff_exists'.mp hf
  obtain ⟨f', hf'⟩ := Option.ne_none_iff_exists'.mp hf'
  obtain ⟨index, n, suf⟩ := e
  obtain ⟨index', n', suf'⟩ := e'
  have hvalue : n.text ++ (suf ++ r) = n'.text ++ (suf' ++ r') →
      n = n' ∧ suf = suf' ∧ r = r' := by
    intro heq
    obtain ⟨hn, hrest⟩ := numeral_unique heq (noDigit_suffix hf hr) (noDigit_suffix hf' hr')
    exact ⟨hn, suffix_unique hrest hf hf' hr hr'⟩
  rw [Element.text, Element.text] at h
  dsimp only at h
  cases index with
  | none =>
    cases index' with
    | none =>
      rw [Option.elim_none, List.nil_append, List.nil_append, List.append_assoc,
        List.append_assoc] at h
      obtain ⟨rfl, rfl, rfl⟩ := hvalue h
      exact ⟨rfl, rfl⟩
    | some m' =>
      rw [Option.elim_none, List.nil_append, List.append_assoc] at h
      exact absurd (by rw [h]; rfl) (n.head_ne_bracket (suf ++ r))
  | some m =>
    cases index' with
    | none =>
      rw [Option.elim_none, List.nil_append, List.append_assoc n'.text] at h
      exact absurd (by rw [← h]; rfl) (n'.head_ne_bracket (suf' ++ r'))
    | some m' =>
      rw [Option.elim_some, Option.elim_some] at h
      simp only [List.append_assoc, List.cons_append, List.nil_append, List.cons.injEq,
        true_and] at h
      have hbracket : ∀ t : CStr, NoDigit (0x5d :: t) := by
        rintro t b ⟨⟩
        rfl
      obtain ⟨rfl, hrest⟩ := numeral_unique h (hbracket _) (hbracket _)
      obtain ⟨rfl, rfl, rfl⟩ := hvalue (List.cons.inj hrest).2
      exact ⟨rfl, rfl⟩

theorem textOf_unique (h : textOf els = textOf els')
    (hf : ∀ x ∈ els, factor unit x.2.suffix ≠ none)
    (hf' : ∀ x ∈ els', factor unit x.2.suffix ≠ none) : els = els' := by
  induction els generalizing els' with
  | nil =>
    cases els' with
    | nil => rfl
    | cons x els' => cases h
  | cons x els ih =>
    cases els' with
    | nil => cases h
    | cons x' els' =>
      obtain ⟨dash, e⟩ := x
      obtain ⟨dash', e'⟩ := x'
      have hcons : separatorOf dash :: (e.text ++ textOf els) =
          separatorOf dash' :: (e'.text ++ textOf els') := h
      obtain ⟨hsep, htext⟩ := List.cons.inj hcons
      obtain ⟨rfl, hrest⟩ := element_unique htext (hf _ List.mem_cons_self)
        (hf' _ List.mem_cons_self) (ends_textOf els) (ends_textOf els')
      have hdash : dash = dash' := by
        cases dash with
        | true =>
          cases dash' with
          | true => rfl
          | false => cases hsep
        | false =>
          cases dash' with
          | true => cases hsep
          | false => rfl
      rw [hdash, ih hrest (fun x hx => hf x (List.mem_cons_of_mem _ hx))
        fun x hx => hf' x (List.mem_cons_of_mem _ hx)]

theorem Vector.reads_unique {t t' : Vector} (h : t.Reads unit s) (h' : t'.Reads unit s) :
    t = t' := by
  obtain ⟨first, rest⟩ := t
  obtain ⟨first', rest'⟩ := t'
  obtain ⟨hfirst, hrest⟩ := element_unique (h.1.symm.trans h'.1) (h.2 _ List.mem_cons_self)
    (h'.2 _ List.mem_cons_self) (ends_textOf rest) (ends_textOf rest')
  cases hfirst
  exact congrArg (Vector.mk first) (textOf_unique hrest
    (fun x hx => h.2 x (List.mem_cons_of_mem _ hx))
    fun x hx => h'.2 x (List.mem_cons_of_mem _ hx))

/-! ### Stores -/

theorem length_assign {α : Type} (vector : List α) (stores : List (Int × α)) :
    (assign vector stores).length = vector.length := by
  induction stores generalizing vector with
  | nil => rfl
  | cons s stores ih => exact (ih _).trans List.length_set

theorem foldlM_store {vector : List SaneWord} {stores : List (Int × SaneWord)}
    (h : ∀ s ∈ stores, 0 ≤ s.1 ∧ s.1 < vector.length) :
    stores.foldlM store vector = .ok (assign vector stores) := by
  induction stores generalizing vector with
  | nil => rfl
  | cons s stores ih =>
    rw [List.foldlM_cons, store, if_pos (h s List.mem_cons_self)]
    refine ih fun x hx => ?_
    rw [List.length_set]
    exact h x (List.mem_cons_of_mem s hx)

theorem map_assign {α β : Type} (g : α → β) (vector : List α) (stores : List (Int × α)) :
    (assign vector stores).map g = assign (vector.map g) (stores.map fun s => (s.1, g s.2)) := by
  induction stores generalizing vector with
  | nil => rfl
  | cons s stores ih =>
    refine (ih _).trans ?_
    rw [List.map_set]
    rfl

theorem interpolate_eq (n : Nat) (i : Int) (v slope : ℚ) :
    interpolate c n i v slope =
      (List.range n).map fun k : Nat => (i + k, c.word (truncate (v + (k + 1) * slope))) := by
  induction n generalizing i v with
  | zero => rfl
  | succ n ih =>
    rw [interpolate, ih, List.range_succ_eq_map, List.map_cons, List.map_map]
    congr 1
    · simp
    · refine List.map_congr_left fun k _ => ?_
      simp only [Function.comp_apply, Nat.succ_eq_add_one, Nat.cast_add, Nat.cast_one]
      congr 1
      · ring
      · congr 2
        ring

/-- A turn stores in the range of the vector. -/
theorem storesOf_range {dash : Bool} {i : Int} {w : SaneWord}
    (hprev : dash = true → 0 ≤ prev ∧ prev < o.length) (hi : 0 ≤ i ∧ i < o.length) :
    ∀ s ∈ storesOf c prev value dash i w, 0 ≤ s.1 ∧ s.1 < o.length := by
  intro s hs
  rw [storesOf] at hs
  rcases List.mem_cons.mp hs with rfl | hs
  · exact hi
  split at hs
  · rename_i hdash
    obtain ⟨hprev₀, -⟩ := hprev hdash
    rw [interpolate_eq] at hs
    obtain ⟨k, hk, rfl⟩ := List.mem_map.mp hs
    rw [List.mem_range] at hk
    dsimp only
    omega
  · cases hs

/-! ### The loop -/

/-- What the loop stores for the elements, nothing if the program exits. -/
def exec (c : Conversion) (o : VectorOption) : Int → SaneWord → Elements →
    Option (List (List (Int × SaneWord)))
  | _, _, [] => some []
  | prev, value, (dash, e) :: els =>
    if 0 ≤ e.wrapped prev ∧ e.wrapped prev < o.length ∧
        ReadsSuffix o.unit e.suffix (textOf els) then
      (exec c o (e.wrapped prev) (e.word c o.unit) els).map
        (storesOf c prev value dash (e.wrapped prev) (e.word c o.unit) :: ·)
    else none

def outcome (vector : List SaneWord) (groups : Option (List (List (Int × SaneWord)))) :
    Except Halt (List SaneWord × List (List (Int × SaneWord))) :=
  groups.elim (.error .exit) fun groups => .ok (assign vector groups.flatten, groups)

/-- The state in which a turn begins. -/
structure Turn (o : VectorOption) (vector : List SaneWord) (prev prevIndex : Int) (dash : Bool)
    (separator : SaneByte) : Prop where
  length : vector.length = o.length
  prev : dash = true → prevIndex = prev ∧ 0 ≤ prev ∧ prev < o.length
  separator : separator = 0x2d ↔ dash = true

variable {vector : List SaneWord} {prevIndex : Int} {dash : Bool} {separator : SaneByte}
  {turns : Nat}

theorem Turn.storesOf (h : Turn o vector prev prevIndex dash separator) (i : Int) (w : SaneWord) :
    storesOf c prevIndex value (separator = 0x2d) i w = storesOf c prev value dash i w := by
  cases dash with
  | true =>
    have hsep : decide (separator = 0x2d) = true := decide_eq_true (h.separator.mpr rfl)
    rw [hsep, (h.prev rfl).1]
  | false =>
    have hsep : decide (separator = 0x2d) = false :=
      decide_eq_false fun heq => Bool.false_ne_true (h.separator.mp heq)
    rw [hsep]
    rfl

/-- The element that is read next. -/
abbrev Accepts (o : VectorOption) (prev : Int) (e : Element) (r : CStr) : Prop :=
  0 ≤ e.wrapped prev ∧ e.wrapped prev < o.length ∧ ReadsSuffix o.unit e.suffix r

theorem parseLoop_exit (hf : factor o.unit e.suffix ≠ none) (hr : Ends r)
    (hno : ¬ Accepts o prev e r) :
    parseLoop c o (turns + 1) vector prev prevIndex value separator (e.text ++ r) =
      .error .exit := by
  obtain ⟨f, hf⟩ := Option.ne_none_iff_exists'.mp hf
  rw [parseLoop, parseElement_text hf hr, if_neg hno]

theorem Turn.stores (h : Turn o vector prev prevIndex dash separator)
    (haccepts : Accepts o prev e r) :
    (ScanimageVector.storesOf c prevIndex value (separator = 0x2d) (e.wrapped prev)
      (e.word c o.unit)).foldlM store vector =
        .ok (assign vector (ScanimageVector.storesOf c prev value dash (e.wrapped prev)
          (e.word c o.unit))) := by
  rw [h.storesOf]
  refine foldlM_store ?_
  rw [h.length]
  exact storesOf_range (fun hdash => (h.prev hdash).2) ⟨haccepts.1, haccepts.2.1⟩

theorem parseLoop_last (h : Turn o vector prev prevIndex dash separator)
    (hf : factor o.unit e.suffix ≠ none) (haccepts : Accepts o prev e []) :
    parseLoop c o (turns + 1) vector prev prevIndex value separator (e.text ++ []) =
      .ok (assign vector (storesOf c prev value dash (e.wrapped prev) (e.word c o.unit)),
        [storesOf c prev value dash (e.wrapped prev) (e.word c o.unit)]) := by
  obtain ⟨f, hf⟩ := Option.ne_none_iff_exists'.mp hf
  have hr : Ends [] := ends_textOf []
  rw [parseLoop, parseElement_text hf hr, if_pos haccepts]
  dsimp only
  rw [h.stores haccepts, ok_bind, h.storesOf]
  rfl

theorem parseLoop_next (h : Turn o vector prev prevIndex dash separator)
    (hf : factor o.unit e.suffix ≠ none) {dash' : Bool}
    (haccepts : Accepts o prev e (separatorOf dash' :: s)) :
    parseLoop c o (turns + 1) vector prev prevIndex value separator
      (e.text ++ separatorOf dash' :: s) =
        parseLoop c o turns
          (assign vector (storesOf c prev value dash (e.wrapped prev) (e.word c o.unit)))
          (e.wrapped prev) (e.wrapped prev) (e.word c o.unit) (separatorOf dash') s >>= fun p =>
            .ok (p.1, storesOf c prev value dash (e.wrapped prev) (e.word c o.unit) :: p.2) := by
  obtain ⟨f, hf⟩ := Option.ne_none_iff_exists'.mp hf
  rw [parseLoop, parseElement_text hf (ends_separator dash' s), if_pos haccepts]
  dsimp only
  rw [h.stores haccepts, ok_bind, h.storesOf]
  rfl

/-- The next turn begins behind an element. -/
theorem Turn.next (h : Turn o vector prev prevIndex dash separator)
    (haccepts : Accepts o prev e r) (dash' : Bool) :
    Turn o (assign vector (ScanimageVector.storesOf c prev value dash (e.wrapped prev)
      (e.word c o.unit))) (e.wrapped prev) (e.wrapped prev) dash' (separatorOf dash') where
  length := (length_assign _ _).trans h.length
  prev := fun _ => ⟨rfl, haccepts.1, haccepts.2.1⟩
  separator := by
    cases dash' with
    | true => exact iff_of_true rfl rfl
    | false => exact iff_of_false (by decide) Bool.false_ne_true

/-- The loop runs over the elements of the text. -/
theorem parseLoop_text (value : SaneWord) (hturns : els.length < turns)
    (h : Turn o vector prev prevIndex dash separator)
    (hf : ∀ x ∈ (dash, e) :: els, factor o.unit x.2.suffix ≠ none) :
    parseLoop c o turns vector prev prevIndex value separator (e.text ++ textOf els) =
      outcome vector (exec c o prev value ((dash, e) :: els)) := by
  induction els generalizing turns vector dash e prev prevIndex value separator with
  | nil =>
    obtain ⟨turns, rfl⟩ : ∃ n, turns = n + 1 := ⟨turns - 1, by omega⟩
    have hsuffix := hf _ List.mem_cons_self
    rw [exec]
    by_cases haccepts : Accepts o prev e (textOf [])
    · rw [if_pos haccepts, exec, outcome, Option.map_some, Option.elim_some, List.flatten_singleton]
      exact parseLoop_last h hsuffix haccepts
    · rw [if_neg haccepts]
      exact parseLoop_exit hsuffix (ends_textOf []) haccepts
  | cons x els ih =>
    obtain ⟨turns, rfl⟩ : ∃ n, turns = n + 1 := ⟨turns - 1, by omega⟩
    obtain ⟨dash', e'⟩ := x
    have hsuffix := hf _ List.mem_cons_self
    have htext : textOf ((dash', e') :: els) = separatorOf dash' :: (e'.text ++ textOf els) := rfl
    rw [exec]
    by_cases haccepts : Accepts o prev e (textOf ((dash', e') :: els))
    · rw [if_pos haccepts]
      rw [htext] at haccepts ⊢
      rw [parseLoop_next h hsuffix haccepts,
        ih _ (Nat.lt_of_succ_lt_succ hturns) (h.next haccepts dash')
          fun y hy => hf y (List.mem_cons_of_mem _ hy)]
      cases exec c o (e.wrapped prev) (e.word c o.unit) ((dash', e') :: els) with
      | none => rfl
      | some groups =>
        rw [Option.map_some, outcome, outcome, Option.elim_some, Option.elim_some, ok_bind,
          List.flatten_cons, assign, assign, assign, List.foldl_append]
    · rw [if_neg haccepts]
      exact parseLoop_exit hsuffix (ends_textOf _) haccepts

/-- What is not the text of elements is rejected. -/
theorem parseLoop_else (hturns : s.length < turns)
    (h : Turn o vector prev prevIndex dash separator) :
    (∃ (e : Element) (els : Elements), s = e.text ++ textOf els ∧ factor o.unit e.suffix ≠ none ∧
      ∀ x ∈ els, factor o.unit x.2.suffix ≠ none) ∨
        parseLoop c o turns vector prev prevIndex value separator s = .error .exit := by
  induction turns generalizing vector dash prev prevIndex value separator s with
  | zero => omega
  | succ turns ih =>
    cases helement : parseElement c o prev s with
    | none =>
      right
      rw [parseLoop, helement]
    | some p =>
      obtain ⟨i, w, r⟩ := p
      obtain ⟨e, rfl, hr, hf⟩ := parseElement_some helement
      rcases hr.eq_nil_or with rfl | ⟨dash', s', rfl⟩
      · exact .inl ⟨e, [], rfl, hf, fun x hx => nomatch hx⟩
      · by_cases haccepts : Accepts o prev e (separatorOf dash' :: s')
        · have hshort : s'.length < turns := by
            rw [List.length_append, List.length_cons] at hturns
            omega
          rw [parseLoop_next h hf haccepts]
          rcases ih hshort (h.next haccepts dash') with ⟨e', els, rfl, hf', hfs⟩ | hexit
          · refine .inl ⟨e, (dash', e') :: els, rfl, hf, fun x hx => ?_⟩
            rcases List.mem_cons.mp hx with rfl | hx
            · exact hf'
            · exact hfs x hx
          · right
            rw [hexit]
            rfl
        · exact .inr (parseLoop_exit hf hr haccepts)

/-! ### Indices and suffixes -/

/-- All suffixes are read. -/
def ReadsAll (unit : SaneUnit) : Elements → Prop
  | [] => True
  | (_, e) :: els => ReadsSuffix unit e.suffix (textOf els) ∧ ReadsAll unit els

theorem exec_ne_none_iff (c : Conversion) (value : SaneWord) :
    exec c o prev value els ≠ none ↔
      InRange Element.wrapped o.length prev els ∧ ReadsAll o.unit els := by
  induction els generalizing prev value with
  | nil => exact iff_of_true (Option.some_ne_none _) ⟨trivial, trivial⟩
  | cons x els ih =>
    obtain ⟨dash, e⟩ := x
    rw [exec, InRange, ReadsAll]
    by_cases haccepts : Accepts o prev e (textOf els)
    · rw [if_pos haccepts, ne_eq, Option.map_eq_none_iff, ← ne_eq, ih]
      exact ⟨fun h => ⟨⟨haccepts.1, haccepts.2.1, h.1⟩, haccepts.2.2, h.2⟩,
        fun h => ⟨h.1.2.2, h.2.2⟩⟩
    · rw [if_neg haccepts]
      exact iff_of_false (fun h => h rfl) fun h => haccepts ⟨h.1.1, h.1.2.1, h.2.1⟩

/-- An index that fits is read as it is. -/
theorem wrapped_eq_next (h : 0 ≤ e.next prev ∧ e.next prev < o.length) :
    e.wrapped prev = e.next prev := by
  have hlt := o.length_lt
  rw [Element.next] at h
  rw [Element.wrapped, Element.next]
  cases hindex : e.index with
  | none => rfl
  | some n =>
    rw [hindex, Option.elim_some] at h
    rw [Option.elim_some, Option.elim_some, toLong, longToInt, Int.bmod_def]
    omega

theorem inRange_wrapped (h : InRange Element.next o.length prev els) :
    InRange Element.wrapped o.length prev els := by
  induction els generalizing prev with
  | nil => trivial
  | cons x els ih =>
    obtain ⟨hlow, hhigh, hrest⟩ := h
    rw [InRange, wrapped_eq_next ⟨hlow, hhigh⟩]
    exact ⟨hlow, hhigh, ih hrest⟩

/-! ### Values -/

theorem truncate_bounds {a b : Int} {v : ℚ} (ha : (a : ℚ) ≤ v) (hb : v ≤ b) :
    a ≤ truncate v ∧ truncate v ≤ b := by
  rw [truncate]
  split
  · exact ⟨Int.cast_le.mp (ha.trans (Int.le_ceil v)), Int.ceil_le.mpr hb⟩
  · exact ⟨Int.le_floor.mpr ha, Int.cast_le.mp ((Int.floor_le v).trans hb)⟩

/-- A value that fits when it is rounded is small. -/
theorem abs_lt_of_isWord {n : Int} {f : ℚ} (hf : 1 ≤ f) (h : IsWord (roundWord (n * f))) :
    -2 ^ 32 < n ∧ n < 2 ^ 32 := by
  obtain ⟨hlow, hhigh⟩ := h
  rw [roundWord] at hlow hhigh
  by_cases hneg : (n * f : ℚ) < 0
  · rw [if_pos hneg, truncate, if_pos (by linarith)] at hlow
    have hn : (n : ℚ) < 0 := by
      by_contra hn
      exact absurd (mul_nonneg (not_lt.mp hn) (zero_le_one.trans hf)) (not_le.mpr hneg)
    have hle : (n * f : ℚ) ≤ n := by nlinarith
    have hceil := Int.ceil_lt_add_one (n * f - 1 / 2 : ℚ)
    have hlow' : ((-2 ^ 31 : Int) : ℚ) ≤ (⌈(n * f - 1 / 2 : ℚ)⌉ : ℚ) := Int.cast_le.mpr hlow
    push_cast at hlow'
    refine ⟨(Int.cast_lt (R := ℚ)).mp ?_, (Int.cast_lt (R := ℚ)).mp ?_⟩
    · push_cast
      linarith
    · push_cast
      linarith
  · rw [if_neg hneg, truncate, if_neg (by linarith [not_lt.mp hneg])] at hhigh
    have hn : (0 : ℚ) ≤ n := by
      by_contra hn
      exact hneg (mul_neg_of_neg_of_pos (not_le.mp hn) (zero_lt_one.trans_le hf))
    have hle : (n : ℚ) ≤ n * f := le_mul_of_one_le_right hn hf
    have hfloor := Int.lt_floor_add_one (n * f + 1 / 2 : ℚ)
    have hhigh' : (⌊(n * f + 1 / 2 : ℚ)⌋ : ℚ) < ((2 ^ 31 : Int) : ℚ) := Int.cast_lt.mpr hhigh
    push_cast at hhigh'
    refine ⟨(Int.cast_lt (R := ℚ)).mp ?_, (Int.cast_lt (R := ℚ)).mp ?_⟩
    · push_cast
      linarith
    · push_cast
      linarith

theorem isWord_toInt (w : SaneWord) : IsWord w.toInt := by
  have hlow := BitVec.le_toInt w
  have hhigh := BitVec.toInt_lt (x := w)
  exact ⟨by omega, by omega⟩

/-- The word of an element is its value exactly if that is a word. -/
theorem toInt_word_iff (hf : factor unit e.suffix ≠ none) :
    (e.word c unit).toInt = e.amount unit ↔ IsWord (e.amount unit) := by
  constructor
  · intro h
    rw [← h]
    exact isWord_toInt _
  · intro h
    obtain ⟨f, hf⟩ := Option.ne_none_iff_exists'.mp hf
    rw [Element.amount, hf, Option.getD_some] at h
    have habs := abs_lt_of_isWord (one_le_factor hf) h
    have hlong : toLong e.value.value = e.value.value := by
      rw [toLong]
      omega
    rw [Element.word, Element.amount, hlong, hf, Option.getD_some]
    exact c.toInt_word _ h

/-! ### Lines -/

theorem between_of_le {i j : Int} (h : i ≤ j + 1) :
    between i j = (List.range (j - (i + 1)).toNat).map fun k : Nat => i + 1 + k := by
  have hcount : (j - i).natAbs - 1 = (j - (i + 1)).toNat := by omega
  rw [between, hcount]
  refine List.map_congr_left fun k hk => ?_
  rw [List.mem_range] at hk
  omega

/-- A line between two words consists of words. -/
theorem isWord_line {v w : Int} (hv : IsWord v) (hw : IsWord w) {x : ℚ} (h₀ : 0 ≤ x) (h₁ : x ≤ 1) :
    IsWord (truncate (v + (w - v) * x)) := by
  have hv₁ : ((-2 ^ 31 : Int) : ℚ) ≤ v := Int.cast_le.mpr hv.1
  have hv₂ : (v : ℚ) ≤ ((2 ^ 31 - 1 : Int) : ℚ) := Int.cast_le.mpr (Int.le_sub_one_of_lt hv.2)
  have hw₁ : ((-2 ^ 31 : Int) : ℚ) ≤ w := Int.cast_le.mpr hw.1
  have hw₂ : (w : ℚ) ≤ ((2 ^ 31 - 1 : Int) : ℚ) := Int.cast_le.mpr (Int.le_sub_one_of_lt hw.2)
  have hmix : (v + (w - v) * x : ℚ) = (1 - x) * v + x * w := by ring
  have hx : 0 ≤ 1 - x := sub_nonneg.mpr h₁
  have hbounds := truncate_bounds (a := -2 ^ 31) (b := 2 ^ 31 - 1) (v := v + (w - v) * x)
    (by
      rw [hmix]
      nlinarith [mul_le_mul_of_nonneg_left hv₁ hx, mul_le_mul_of_nonneg_left hw₁ h₀])
    (by
      rw [hmix]
      nlinarith [mul_le_mul_of_nonneg_left hv₂ hx, mul_le_mul_of_nonneg_left hw₂ h₀])
  exact ⟨hbounds.1, Int.lt_of_le_sub_one hbounds.2⟩

/-- What a dash that leads up stores is the line. -/
theorem interpolate_line {i : Int} {w : SaneWord} (h : prev ≤ i + 1) :
    (interpolate c (i - (prev + 1)).toNat (prev + 1) value.toInt
      (((w.toInt : ℚ) - value.toInt) / ((i : ℚ) - prev))).map (fun s => (s.1, s.2.toInt)) =
        (between prev i).map fun k => (k, line prev value.toInt i w.toInt k) := by
  rw [interpolate_eq, between_of_le h, List.map_map, List.map_map]
  refine List.map_congr_left fun k hk => ?_
  rw [List.mem_range] at hk
  have hpos : (0 : ℚ) < (i : ℚ) - prev := by
    rw [sub_pos]
    exact Int.cast_lt.mpr (by omega)
  have hle : (k : ℚ) + 1 ≤ (i : ℚ) - prev := by
    have hk' : (k : Int) + 1 ≤ i - prev := by omega
    exact_mod_cast hk'
  have hx : ((prev + 1 + k : Int) : ℚ) - prev = k + 1 := by
    push_cast
    ring
  simp only [Function.comp_apply]
  have hword := isWord_line (isWord_toInt value) (isWord_toInt w)
    (div_nonneg (by positivity : (0 : ℚ) ≤ (k : ℚ) + 1) hpos.le) ((div_le_one hpos).mpr hle)
  have hvalue : (value.toInt : ℚ) + ((k : ℚ) + 1) *
      (((w.toInt : ℚ) - value.toInt) / ((i : ℚ) - prev)) =
        value.toInt + ((w.toInt : ℚ) - value.toInt) * (((k : ℚ) + 1) / ((i : ℚ) - prev)) := by ring
  rw [line, hx, hvalue, c.toInt_word _ hword, mul_div_assoc]

/-! ### The vector that is denoted -/

/-- No dash leads down over an element. -/
def NoLineDown (prev : Int) : Elements → Prop
  | [] => True
  | (dash, e) :: els => (dash = true → prev ≤ e.next prev + 1) ∧ NoLineDown (e.next prev) els

/-- A turn stores what the element denotes. -/
theorem storesOf_iff (hf : factor unit e.suffix ≠ none) (prev : Int) (dash : Bool) (i v : Int)
    (hv : value.toInt = v) :
    (storesOf c prev value dash i (e.word c unit)).map (fun s => (s.1, s.2.toInt)) =
        ((i, e.amount unit) :: if dash = true then
          (between prev i).map fun k => (k, line prev v i (e.amount unit) k) else []) ↔
      (dash = true → prev ≤ i + 1) ∧ IsWord (e.amount unit) := by
  subst hv
  rw [storesOf, List.map_cons]
  constructor
  · intro h
    obtain ⟨hhead, htail⟩ := List.cons.inj h
    refine ⟨fun hdash => ?_, (toInt_word_iff hf).mp (congrArg Prod.snd hhead)⟩
    have hlen := congrArg List.length htail
    rw [if_pos hdash, if_pos hdash, List.length_map, List.length_map, interpolate_eq,
      List.length_map, between, List.length_map, List.length_range, List.length_range] at hlen
    omega
  · rintro ⟨hup, hword⟩
    rw [← (toInt_word_iff (c := c) hf).mpr hword]
    cases dash with
    | false => rfl
    | true =>
      rw [if_pos rfl, if_pos rfl, interpolate_line (hup rfl)]

/-- What is stored is what is denoted, if no dash leads down and all values are words. -/
theorem decoded_exec_iff (hf : ∀ x ∈ els, factor o.unit x.2.suffix ≠ none)
    (hrange : InRange Element.next o.length prev els) {groups : List (List (Int × SaneWord))}
    (hexec : exec c o prev value els = some groups) {v : Int} (hv : value.toInt = v) :
    decoded groups = assignments o.unit prev v els ↔
      NoLineDown prev els ∧ ∀ x ∈ els, IsWord (x.2.amount o.unit) := by
  induction els generalizing prev value v groups with
  | nil =>
    cases hexec
    exact iff_of_true rfl ⟨trivial, fun x hx => nomatch hx⟩
  | cons x els ih =>
    obtain ⟨dash, e⟩ := x
    obtain ⟨hlow, hhigh, hrest⟩ := hrange
    rw [exec] at hexec
    split at hexec
    · obtain ⟨more, hmore, rfl⟩ := Option.map_eq_some_iff.mp hexec
      rw [wrapped_eq_next ⟨hlow, hhigh⟩] at hmore ⊢
      have hsuffix := hf _ List.mem_cons_self
      have hturn := storesOf_iff (c := c) hsuffix prev dash (e.next prev) v hv
      rw [decoded, List.map_cons, assignments, List.cons.injEq, hturn, NoLineDown,
        List.forall_mem_cons, ← decoded]
      constructor
      · rintro ⟨⟨hup, hword⟩, hdecoded⟩
        have hv' : (e.word c o.unit).toInt = e.amount o.unit := (toInt_word_iff hsuffix).mpr hword
        obtain ⟨hdown, hwords⟩ := (ih (fun y hy => hf y (List.mem_cons_of_mem _ hy)) hrest hmore
          hv').mp hdecoded
        exact ⟨⟨hup, hdown⟩, hword, hwords⟩
      · rintro ⟨⟨hup, hdown⟩, hword, hwords⟩
        have hv' : (e.word c o.unit).toInt = e.amount o.unit := (toInt_word_iff hsuffix).mpr hword
        exact ⟨⟨hup, hword⟩, (ih (fun y hy => hf y (List.mem_cons_of_mem _ hy)) hrest hmore
          hv').mpr ⟨hdown, hwords⟩⟩
    · cases hexec

/-- All stores are in the range of the vector. -/
theorem exec_range (hprev : ∀ x ∈ els.head?, x.1 = true → 0 ≤ prev ∧ prev < o.length)
    {groups : List (List (Int × SaneWord))} (hexec : exec c o prev value els = some groups) :
    ∀ stores ∈ groups, ∀ s ∈ stores, 0 ≤ s.1 ∧ s.1 < o.length := by
  induction els generalizing prev value groups with
  | nil =>
    cases hexec
    exact fun stores hstores => nomatch hstores
  | cons x els ih =>
    obtain ⟨dash, e⟩ := x
    rw [exec] at hexec
    split at hexec
    · rename_i haccepts
      obtain ⟨more, hmore, rfl⟩ := Option.map_eq_some_iff.mp hexec
      intro stores hstores
      rcases List.mem_cons.mp hstores with rfl | hstores
      · exact storesOf_range (hprev _ rfl) ⟨haccepts.1, haccepts.2.1⟩
      · exact ih (fun y _ _ => ⟨haccepts.1, haccepts.2.1⟩) hmore stores hstores
    · cases hexec

/-! ### `parse_vector` -/

theorem length_textOf (els : Elements) : els.length ≤ (textOf els).length := by
  induction els with
  | nil => exact Nat.le_refl 0
  | cons x els ih =>
    rw [textOf, List.flatMap_cons, ← textOf, List.length_append, List.length_cons,
      List.length_cons]
    omega

theorem first_turn (o : VectorOption) :
    Turn o (List.replicate o.length 0) (-1) 0 false 0 where
  length := List.length_replicate
  prev := fun h => absurd h Bool.false_ne_true
  separator := iff_of_false (by decide) Bool.false_ne_true

/-- A vector is read by the loop over its elements. -/
theorem parseVector_text (t : Vector) (h : t.Reads o.unit s) :
    parseVector c o s = outcome (List.replicate o.length 0) (exec c o (-1) 0 t.elements) := by
  obtain ⟨htext, hf⟩ := h
  have hlen := length_textOf t.rest
  have hturns : t.rest.length < s.length + 1 := by
    rw [htext, List.length_append]
    omega
  have hloop := parseLoop_text (c := c) 0 hturns (first_turn o) hf
  rw [← htext] at hloop
  exact hloop

theorem parseVector_else (h : ¬ ∃ t : Vector, t.Reads o.unit s) :
    parseVector c o s = .error .exit := by
  refine (parseLoop_else (Nat.lt_succ_self s.length) (first_turn o)).resolve_left ?_
  rintro ⟨e, els, htext, hf, hfs⟩
  refine h ⟨⟨e, els⟩, htext, fun x hx => ?_⟩
  rcases List.mem_cons.mp hx with rfl | hx
  · exact hf
  · exact hfs x hx

/-- The elements are read one by one, all lines lead up and all values are words. -/
structure Vector.Plain (unit : SaneUnit) (t : Vector) : Prop where
  suffixes : ReadsAll unit t.elements
  up : NoLineDown (-1) t.elements
  words : ∀ x ∈ t.elements, IsWord (x.2.amount unit)

/-- The vectors that the string denotes are plain, and no index that does not fit in an `int` is
    taken for one of the vector. -/
def Handled (o : VectorOption) (str : CStr) : Prop :=
  ∀ t : Vector, t.Reads o.unit str →
    (t.Fits o.length → t.Plain o.unit) ∧
      (¬ t.Fits o.length → ReadsAll o.unit t.elements →
        ¬ InRange Element.wrapped o.length (-1) t.elements)

theorem correct_of_handled (h : Handled o s) : Correct c o s where
  accepts := by
    intro t hreads hfits
    obtain ⟨hsuffixes, hup, hwords⟩ := (h t hreads).1 hfits
    obtain ⟨groups, hexec⟩ := Option.ne_none_iff_exists'.mp
      ((exec_ne_none_iff c 0).mpr ⟨inRange_wrapped hfits, hsuffixes⟩)
    have hdecoded := (decoded_exec_iff (v := 0) hreads.2 hfits hexec rfl).mpr ⟨hup, hwords⟩
    refine ⟨assign (List.replicate o.length 0) groups.flatten, groups, ?_, hdecoded, ?_, ?_⟩
    · rw [parseVector_text t hreads, hexec]
      rfl
    · rw [map_assign, List.map_replicate, Vector.assignments, ← hdecoded, decoded,
        List.map_flatten]
      rfl
    · refine exec_range ?_ hexec
      rintro _ ⟨⟩ hdash
      cases hdash
  rejects := by
    intro hno
    by_cases hreads : ∃ t : Vector, t.Reads o.unit s
    · obtain ⟨t, hreads⟩ := hreads
      rw [parseVector_text t hreads]
      cases hexec : exec c o (-1) 0 t.elements with
      | none => rfl
      | some groups =>
        have hread := (exec_ne_none_iff _ _).mp (by rw [hexec]; exact Option.some_ne_none groups)
        exact absurd hread.1 ((h t hreads).2 (fun hfits => hno ⟨t, hreads, hfits⟩) hread.2)
    · exact parseVector_else hreads

theorem handled_of_correct (h : Correct c o s) : Handled o s := by
  intro t hreads
  constructor
  · intro hfits
    obtain ⟨vector, groups, hparse, hdecoded, -⟩ := h.accepts t hreads hfits
    rw [parseVector_text t hreads] at hparse
    cases hexec : exec c o (-1) 0 t.elements with
    | none =>
      rw [hexec] at hparse
      cases hparse
    | some more =>
      rw [hexec] at hparse
      cases hparse
      have hread := (exec_ne_none_iff _ _).mp (by rw [hexec]; exact Option.some_ne_none _)
      obtain ⟨hup, hwords⟩ := (decoded_exec_iff hreads.2 hfits hexec rfl).mp hdecoded
      exact ⟨hread.2, hup, hwords⟩
  · intro hfits hsuffixes hrange
    obtain ⟨groups, hexec⟩ := Option.ne_none_iff_exists'.mp
      ((exec_ne_none_iff c 0).mpr ⟨hrange, hsuffixes⟩)
    have hexit := h.rejects (by
      rintro ⟨t', hreads', hfits'⟩
      rw [Vector.reads_unique hreads hreads'] at hfits
      exact hfits hfits')
    rw [parseVector_text t hreads, hexec] at hexit
    cases hexit

/-- A string is read as the grammar says exactly if it is handled. -/
theorem parseVector_correct_iff (c : Conversion) (o : VectorOption) (str : CStr) :
    Correct c o str ↔ Handled o str := ⟨handled_of_correct, correct_of_handled⟩

/-! ### A vector of lengths -/

def wrapping : Conversion where
  word := BitVec.ofInt 32
  toInt_word := by
    intro v hv
    obtain ⟨hlow, hhigh⟩ := hv
    rw [BitVec.toInt_ofInt, Int.bmod_def]
    omega

/-- A number of one digit. -/
def digit (b : SaneByte) (h : isDigit b = true) : Numeral where
  blanks := []
  sign := []
  digits := [b]
  blanks_space := fun _ hb => nomatch hb
  sign_cases := .inl rfl
  digits_ne := List.cons_ne_nil b []
  digits_digit := fun x hx => by rwa [List.mem_singleton.mp hx]

/-- Two lengths without units are no vector for the code, since `,2` is not a unit. -/
theorem parseVector_rejects_lengths :
    ¬ ∀ (c : Conversion) (o : VectorOption) (str : CStr), Correct c o str := by
  intro h
  have hcorrect := h wrapping ⟨.mm, 2, by decide⟩ (ascii ['1', ',', '2'])
  have hreads : Vector.Reads .mm ⟨⟨none, digit 0x31 rfl, []⟩, [(false, ⟨none, digit 0x32 rfl, []⟩)]⟩
      (ascii ['1', ',', '2']) := by
    refine ⟨rfl, fun x hx => ?_⟩
    rcases List.mem_cons.mp hx with rfl | hx
    · exact Option.some_ne_none 1
    · rw [List.mem_singleton.mp hx]
      exact Option.some_ne_none 1
  obtain ⟨vector, groups, hparse, -⟩ := hcorrect.accepts _ hreads
    ⟨by decide, by decide, by decide, by decide, trivial⟩
  have hexit : parseVector wrapping ⟨.mm, 2, by decide⟩ (ascii ['1', ',', '2']) =
      .error .exit := by rfl
  rw [hexit] at hparse
  cases hparse

end SaneBackends.ScanimageVector
