import SaneBackends.ScanimageVector

/-!
# What `parse_vector` reads

The loop reads a string element by element, just as the grammar does.  A suffix is compared with
all that is left of the string, so most suffixes are only read in the last element.
-/

namespace SaneBackends.ScanimageVector

/-! ### Suffixes -/

/-- All suffixes with their factors. -/
def allSuffixes : List (CStr × ℚ) :=
  [([], 1), (ascii ['p', 'e', 'l'], 1), (ascii ['b'], 1), (ascii ['B'], 8), (ascii ['m', 'm'], 1),
    (ascii ['c', 'm'], 10), (ascii ['i', 'n'], 127 / 5), (ascii ['"'], 127 / 5),
    (ascii ['d', 'p', 'i'], 1), (ascii ['%'], 1), (ascii ['u', 's'], 1)]

variable {unit : SaneUnit} {suf s r : CStr} {f v : ℚ}

theorem factor_mem (h : factor unit suf = some f) : (suf, f) ∈ allSuffixes := by
  rw [factor.eq_def] at h
  split at h
  · rename_i hempty
    cases h
    rw [hempty]
    decide
  · cases unit with
    | none => cases h
    | pixel =>
      dsimp only at h
      split_ifs at h with heq
      cases h
      rw [heq]
      decide
    | bit =>
      dsimp only at h
      split_ifs at h with heq heq'
      · cases h
        rw [heq]
        decide
      · cases h
        rw [heq']
        decide
    | mm =>
      dsimp only at h
      split_ifs at h with heq heq' hor
      · cases h
        rw [heq]
        decide
      · cases h
        rw [heq']
        decide
      · cases h
        rcases hor with heq | heq
        · rw [heq]
          exact List.mem_of_getElem? (i := 6) rfl
        · rw [heq]
          exact List.mem_of_getElem? (i := 7) rfl
    | dpi =>
      dsimp only at h
      split_ifs at h with heq
      cases h
      rw [heq]
      decide
    | percent =>
      dsimp only at h
      split_ifs at h with heq
      cases h
      rw [heq]
      decide
    | microsecond =>
      dsimp only at h
      split_ifs at h with heq
      cases h
      rw [heq]
      decide

/-- A character that is neither a separator nor a digit. -/
def isPlain (b : SaneByte) : Bool := b != 0x2d && b != 0x2c && !isDigit b

theorem suffix_plain (h : factor unit suf = some f) : ∀ b ∈ suf, isPlain b = true := by
  have hall : (allSuffixes.all fun p => p.1.all isPlain) = true := rfl
  exact List.all_eq_true.1 (List.all_eq_true.1 hall _ (factor_mem h))

theorem one_le_factor (h : factor unit suf = some f) : 1 ≤ f := by
  have hall : ∀ p ∈ allSuffixes, (1 : ℚ) ≤ p.2 := by
    simp only [allSuffixes, List.forall_mem_cons]
    norm_num
  exact hall _ (factor_mem h)

/-- The string ends or goes on with a separator. -/
def Ends (s : CStr) : Prop := ∀ b, s.head? = some b → b = 0x2d ∨ b = 0x2c

theorem Ends.eq_nil_or (h : Ends r) : r = [] ∨ ∃ dash s, r = separatorOf dash :: s := by
  cases r with
  | nil => exact .inl rfl
  | cons b s =>
    rcases h b rfl with rfl | rfl
    · exact .inr ⟨true, s, rfl⟩
    · exact .inr ⟨false, s, rfl⟩

theorem ends_separator (dash : Bool) (s : CStr) : Ends (separatorOf dash :: s) := by
  intro b hb
  cases hb
  cases dash with
  | true => exact .inl rfl
  | false => exact .inr rfl

theorem ends_textOf (els : Elements) : Ends (textOf els) := by
  cases els with
  | nil => exact fun b hb => nomatch hb
  | cons e els => exact ends_separator e.1 _

/-- A suffix in front of a separator is determined by the string. -/
theorem suffix_unique {suf' r' : CStr} {f' : ℚ} (h : suf ++ r = suf' ++ r')
    (hf : factor unit suf = some f) (hf' : factor unit suf' = some f') (hr : Ends r)
    (hr' : Ends r') : suf = suf' ∧ r = r' := by
  have hends : ∀ {r : CStr}, Ends r → ∀ b, r.head? = some b → isPlain b = false := by
    intro r hr b hb
    rcases hr b hb with rfl | rfl
    · decide
    · decide
  obtain ⟨htake, hdrop⟩ := span_append (suffix_plain hf) (hends hr)
  obtain ⟨htake', hdrop'⟩ := span_append (suffix_plain hf') (hends hr')
  rw [h] at htake hdrop
  exact ⟨htake.symm.trans htake', hdrop.symm.trans hdrop'⟩

/-- Which suffixes are read in front of the rest of the string. -/
def ReadsSuffix (unit : SaneUnit) (suf r : CStr) : Prop :=
  match unit with
  | .none | .pixel => suf = []
  | .bit | .percent => True
  | .mm => r = [] ∨ suf = ascii ['"']
  | .dpi | .microsecond => r = [] ∨ suf = []

instance (unit : SaneUnit) (suf r : CStr) : Decidable (ReadsSuffix unit suf r) :=
  match unit with
  | .none | .pixel => inferInstanceAs (Decidable (suf = []))
  | .bit | .percent => inferInstanceAs (Decidable True)
  | .mm => inferInstanceAs (Decidable (_ ∨ _))
  | .dpi | .microsecond => inferInstanceAs (Decidable (_ ∨ _))

theorem Ends.head_ne (hr : Ends r) {b : SaneByte} (hb : isPlain b = true) : r.head? ≠ some b := by
  intro heq
  rcases hr b heq with rfl | rfl
  · exact absurd hb (by decide)
  · exact absurd hb (by decide)

theorem Ends.ne_cons (hr : Ends r) {b : SaneByte} (hb : isPlain b = true) (bs : CStr) :
    r ≠ b :: bs := by
  intro heq
  exact hr.head_ne hb (by rw [heq]; rfl)

theorem factor_nil (unit : SaneUnit) : factor unit [] = some 1 := if_pos rfl

/-- The suffix is read with its factor. -/
theorem parseUnit_append (hf : factor unit suf = some f) (hr : Ends r)
    (hread : ReadsSuffix unit suf r) (v : ℚ) : parseUnit unit v (suf ++ r) = some (v * f, r) := by
  by_cases hempty : suf = []
  · subst hempty
    rw [factor_nil] at hf
    cases hf
    rw [mul_one, List.nil_append]
    cases unit with
    | none => rfl
    | pixel => rfl
    | bit => rw [parseUnit, if_neg (hr.head_ne (by decide)), if_neg (hr.head_ne (by decide))]
    | mm =>
      rcases hread with rfl | hsuf
      · rfl
      · cases hsuf
    | dpi => exact if_neg (hr.ne_cons (by decide) _)
    | percent => exact if_neg (hr.head_ne (by decide))
    | microsecond => exact if_neg (hr.ne_cons (by decide) _)
  · rw [factor.eq_def, if_neg hempty] at hf
    cases unit with
    | none => cases hf
    | pixel => exact absurd hread hempty
    | bit =>
      dsimp only at hf
      split_ifs at hf with heq heq'
      · cases hf
        rw [heq, mul_one]
        rfl
      · cases hf
        rw [heq']
        rfl
    | mm =>
      dsimp only at hf
      rcases hread with rfl | rfl
      · rw [List.append_nil]
        split_ifs at hf with heq heq' hor
        · cases hf
          rw [heq, mul_one]
          rfl
        · cases hf
          rw [heq']
          rfl
        · cases hf
          rcases hor with heq | heq
          · rw [heq]
            rfl
          · rw [heq]
            rfl
      · cases hf
        rfl
    | dpi =>
      dsimp only at hf
      split_ifs at hf with heq
      cases hf
      have hr' := hread.resolve_right hempty
      rw [heq, hr', mul_one]
      rfl
    | percent =>
      dsimp only at hf
      split_ifs at hf with heq
      cases hf
      rw [heq, mul_one]
      rfl
    | microsecond =>
      dsimp only at hf
      split_ifs at hf with heq
      cases hf
      have hr' := hread.resolve_right hempty
      rw [heq, hr', mul_one]
      rfl

/-- What is read in front of a separator is a suffix. -/
theorem parseUnit_some {v' : ℚ} (h : parseUnit unit v s = some (v', r)) (hr : Ends r) :
    ∃ suf f, s = suf ++ r ∧ factor unit suf = some f ∧ ReadsSuffix unit suf r ∧ v' = v * f := by
  have hnil : ∀ {s' : CStr} {w : ℚ}, some (v, s) = some (w, s') → ReadsSuffix unit [] s' →
      ∃ suf f, s = suf ++ s' ∧ factor unit suf = some f ∧ ReadsSuffix unit suf s' ∧ w = v * f := by
    rintro s' w ⟨⟩ hread
    exact ⟨[], 1, rfl, factor_nil unit, hread, (mul_one v).symm⟩
  cases unit with
  | none => exact hnil h rfl
  | pixel => exact hnil h rfl
  | bit =>
    rw [parseUnit] at h
    split_ifs at h with hB hb
    · obtain ⟨t, rfl⟩ := List.head?_eq_some_iff.mp hB
      cases h
      exact ⟨ascii ['B'], 8, rfl, rfl, trivial, rfl⟩
    · obtain ⟨t, rfl⟩ := List.head?_eq_some_iff.mp hb
      cases h
      exact ⟨ascii ['b'], 1, rfl, rfl, trivial, (mul_one v).symm⟩
    · exact hnil h trivial
  | mm =>
    rw [parseUnit] at h
    split_ifs at h with hempty hmm hcm hquote hin
    · cases h
      exact ⟨[], 1, rfl, rfl, .inl hempty, (mul_one v).symm⟩
    · cases h
      exact ⟨ascii ['m', 'm'], 1, by rw [hmm]; rfl, rfl, .inl (by rw [hmm]; rfl),
        (mul_one v).symm⟩
    · cases h
      exact ⟨ascii ['c', 'm'], 10, by rw [hcm]; rfl, rfl, .inl (by rw [hcm]; rfl), rfl⟩
    · obtain ⟨t, rfl⟩ := List.head?_eq_some_iff.mp hquote
      cases h
      exact ⟨ascii ['"'], 127 / 5, rfl, rfl, .inr rfl, rfl⟩
    · cases h
      exact ⟨ascii ['i', 'n'], 127 / 5, by rw [hin]; rfl, rfl, .inl (by rw [hin]; rfl), rfl⟩
  | dpi =>
    rw [parseUnit] at h
    split_ifs at h with hdpi
    · cases h
      exact ⟨ascii ['d', 'p', 'i'], 1, by rw [hdpi]; rfl, rfl, .inl (by rw [hdpi]; rfl),
        (mul_one v).symm⟩
    · exact hnil h (.inr rfl)
  | percent =>
    rw [parseUnit] at h
    split_ifs at h with hpercent
    · obtain ⟨t, rfl⟩ := List.head?_eq_some_iff.mp hpercent
      cases h
      exact ⟨ascii ['%'], 1, rfl, rfl, trivial, (mul_one v).symm⟩
    · exact hnil h trivial
  | microsecond =>
    rw [parseUnit] at h
    split_ifs at h with hus
    · cases h
      exact ⟨ascii ['u', 's'], 1, by rw [hus]; rfl, rfl, .inl (by rw [hus]; rfl),
        (mul_one v).symm⟩
    · exact hnil h (.inr rfl)

/-! ### Elements -/

variable {c : Conversion} {o : VectorOption} {e : Element} {index : Int}

/-- The index that is read. -/
def Element.wrapped (e : Element) (prev : Int) : Int :=
  e.index.elim (prev + 1) fun n => longToInt (toLong n.value)

/-- The value that is stored. -/
def Element.word (c : Conversion) (unit : SaneUnit) (e : Element) : SaneWord :=
  c.word (roundWord (toLong e.value.value * (factor unit e.suffix).getD 1))

theorem noDigit_suffix (hf : factor unit suf = some f) (hr : Ends r) : NoDigit (suf ++ r) := by
  intro b hb
  cases suf with
  | nil =>
    rcases hr b hb with rfl | rfl
    · rfl
    · rfl
  | cons x xs =>
    cases hb
    have hplain := suffix_plain hf b List.mem_cons_self
    rw [isPlain, Bool.and_eq_true, Bool.not_eq_true'] at hplain
    exact hplain.2

theorem parseScalar_text (n : Numeral) (hs : NoDigit s) :
    parseScalar c unit (n.text ++ s) =
      (parseUnit unit (toLong n.value) s).map fun v => (c.word (roundWord v.1), v.2) := by
  rw [parseScalar, Numeral.strtol_eq, Numeral.strtolEnd_eq, n.read_append hs]
  change (parseUnit unit ((toLong n.value : Int) : ℚ) s).bind _ = _
  cases parseUnit unit ((toLong n.value : Int) : ℚ) s with
  | none => rfl
  | some v => rfl

theorem parseScalar_some {w : SaneWord} (h : parseScalar c unit s = some (w, r)) :
    ∃ n t v, s = Numeral.text n ++ t ∧ NoDigit t ∧ parseUnit unit (toLong n.value) t = some (v, r) ∧
      w = c.word (roundWord v) := by
  rw [parseScalar, Numeral.strtol_eq, Numeral.strtolEnd_eq] at h
  cases hread : Numeral.read s with
  | none =>
    rw [hread] at h
    cases h
  | some p =>
    obtain ⟨n, t⟩ := p
    obtain ⟨hs, ht⟩ := Numeral.read_eq_some hread
    rw [hread] at h
    change (parseUnit unit ((toLong n.value : Int) : ℚ) t).bind _ = _ at h
    obtain ⟨⟨v, r'⟩, hunit, heq⟩ := Option.bind_eq_some_iff.mp h
    cases heq
    exact ⟨n, t, v, hs, ht, hunit, rfl⟩

/-- The index is read, and the rest behind the bracket. -/
theorem index_text (e : Element) (prev : Int) (s : CStr) :
    nextIndex prev (e.text ++ s) =
      some (e.wrapped prev, e.value.text ++ (e.suffix ++ s)) := by
  rw [nextIndex, Element.text, Element.wrapped]
  cases e.index with
  | none =>
    rw [Option.elim_none, List.nil_append, List.append_assoc, if_neg, Option.elim_none]
    exact Numeral.head_ne_bracket _ _
  | some n =>
    rw [Option.elim_some, Option.elim_some, List.append_assoc, List.cons_append, List.append_assoc,
      List.head?_cons, if_pos rfl, List.tail_cons, readIndex, Numeral.strtol_eq,
      Numeral.strtolEnd_eq, n.read_append]
    · rw [Option.map_some, Option.elim_some, List.append_assoc]
      rfl
    · rintro b ⟨⟩
      rfl

theorem parseElement_text (hf : factor o.unit e.suffix = some f) (hr : Ends r) (prev : Int) :
    parseElement c o prev (e.text ++ r) =
      if 0 ≤ e.wrapped prev ∧ e.wrapped prev < o.length ∧ ReadsSuffix o.unit e.suffix r then
        some (e.wrapped prev, e.word c o.unit, r)
      else none := by
  rw [parseElement, index_text]
  change (if e.wrapped prev < 0 ∨ e.wrapped prev ≥ o.length then none
    else (parseScalar c o.unit (e.value.text ++ (e.suffix ++ r))).bind _) = _
  by_cases hindex : e.wrapped prev < 0 ∨ e.wrapped prev ≥ o.length
  · rw [if_pos hindex, if_neg (by omega)]
  rw [if_neg hindex, parseScalar_text _ (noDigit_suffix hf hr)]
  by_cases hread : ReadsSuffix o.unit e.suffix r
  · have hends : ¬ (r ≠ [] ∧ r.head? ≠ some 0x2d ∧ r.head? ≠ some 0x2c) := by
      rintro ⟨hne, hdash, hcomma⟩
      rcases hr.eq_nil_or with rfl | ⟨dash, t, rfl⟩
      · exact hne rfl
      · cases dash with
        | true => exact hdash rfl
        | false => exact hcomma rfl
    rw [parseUnit_append hf hr hread, if_pos ⟨by omega, by omega, hread⟩]
    change (if r ≠ [] ∧ r.head? ≠ some 0x2d ∧ r.head? ≠ some 0x2c then _ else _) = _
    rw [if_neg hends, Element.word, hf]
    rfl
  · rw [if_neg (fun h => hread h.2.2)]
    cases hunit : parseUnit o.unit ((toLong e.value.value : Int) : ℚ) (e.suffix ++ r) with
    | none => rfl
    | some v =>
      obtain ⟨v, t⟩ := v
      change (if t ≠ [] ∧ t.head? ≠ some 0x2d ∧ t.head? ≠ some 0x2c then _ else _) = _
      refine if_pos ?_
      by_contra hends
      have ht : Ends t := by
        intro b hb
        by_contra hsep
        rw [not_or] at hsep
        refine hends ⟨fun hnil => ?_, fun hd => ?_, fun hd => ?_⟩
        · rw [hnil] at hb
          cases hb
        · rw [hb] at hd
          exact hsep.1 (Option.some.inj hd)
        · rw [hb] at hd
          exact hsep.2 (Option.some.inj hd)
      obtain ⟨suf, f', htext, hf', hread', -⟩ := parseUnit_some hunit ht
      obtain ⟨rfl, rfl⟩ := suffix_unique htext hf hf' hr ht
      exact hread hread'

/-- Whatever is read is an element. -/
theorem parseElement_some {i : Int} {w : SaneWord} (h : parseElement c o index s = some (i, w, r)) :
    ∃ e : Element, s = e.text ++ r ∧ Ends r ∧ factor o.unit e.suffix ≠ none := by
  rw [parseElement] at h
  obtain ⟨⟨i', t⟩, hindex, h⟩ := Option.bind_eq_some_iff.mp h
  dsimp only at h
  split at h
  · cases h
  obtain ⟨⟨w', r'⟩, hscalar, h⟩ := Option.bind_eq_some_iff.mp h
  dsimp only at h
  split at h
  · cases h
  rename_i hends
  cases h
  have hr : Ends r := by
    intro b hb
    by_contra hsep
    rw [not_or] at hsep
    refine hends ⟨fun hnil => ?_, fun hd => ?_, fun hd => ?_⟩
    · rw [hnil] at hb
      cases hb
    · rw [hb] at hd
      exact hsep.1 (Option.some.inj hd)
    · rw [hb] at hd
      exact hsep.2 (Option.some.inj hd)
  obtain ⟨n, u, v, ht, -, hunit, -⟩ := parseScalar_some hscalar
  obtain ⟨suf, f, hu, hf, -, -⟩ := parseUnit_some hunit hr
  rw [nextIndex] at hindex
  split at hindex
  · rename_i hbracket
    obtain ⟨s', rfl⟩ := List.head?_eq_some_iff.mp hbracket
    rw [List.tail_cons, readIndex, Numeral.strtol_eq, Numeral.strtolEnd_eq] at hindex
    cases hread : Numeral.read s' with
    | none =>
      rw [hread] at hindex
      cases hindex
    | some p =>
      obtain ⟨m, z⟩ := p
      obtain ⟨hs', -⟩ := Numeral.read_eq_some hread
      rw [hread] at hindex
      change (if z.head? = some 0x5d then _ else _) = _ at hindex
      split at hindex
      · rename_i hclose
        obtain ⟨z', rfl⟩ := List.head?_eq_some_iff.mp hclose
        cases hindex
        refine ⟨⟨some m, n, suf⟩, ?_, hr, by rw [hf]; exact Option.some_ne_none f⟩
        rw [Element.text, hs']
        dsimp only
        have hz' : z' = n.text ++ u := ht
        rw [Option.elim_some, hz', hu]
        simp only [List.append_assoc, List.cons_append, List.nil_append]
      · cases hindex
  · cases hindex
    refine ⟨⟨none, n, suf⟩, ?_, hr, by rw [hf]; exact Option.some_ne_none f⟩
    rw [Element.text, ht, hu]
    dsimp only
    rw [Option.elim_none, List.nil_append, List.append_assoc]

end SaneBackends.ScanimageVector
