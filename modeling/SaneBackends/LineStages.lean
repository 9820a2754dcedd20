import Mathlib.Data.List.Infix

/-!
# Stages that work on lines

A stage of a pipeline makes lines out of lines: each line of its output is made of one line
of its input and of some more below that line.  So what it makes of the first lines does not
depend on what comes later, and it is the same whether the lines are made at once or a few
at a time.
-/

namespace SaneBackends.LineStages

variable {α : Type*}

/-- `line` makes a line of the output of a line of the input and `ahead` more. -/
structure LineStage (α : Type*) where
  lineIn : Nat
  ahead : Nat
  line : List α → List α

namespace LineStage

variable {st : LineStage α} {src src' more : List α} {j n : Nat}

/-- What a line of the output is made of. -/
def window (st : LineStage α) (src : List α) (y : Nat) : List α :=
  (src.drop (y * st.lineIn)).take ((st.ahead + 1) * st.lineIn)

/-- The first `n` lines of the output. -/
def lines (st : LineStage α) (n : Nat) (src : List α) : List α :=
  (List.range n).flatMap fun y => st.line (st.window src y)

/-- All lines that can be made. -/
def whole (st : LineStage α) (src : List α) : List α :=
  st.lines (src.length / st.lineIn - st.ahead) src

/-- The input is long enough for `n` lines of the output. -/
def Enough (st : LineStage α) (n : Nat) (src : List α) : Prop :=
  n = 0 ∨ (n + st.ahead) * st.lineIn ≤ src.length

theorem window_add (st : LineStage α) (j y : Nat) (src : List α) :
    st.window src (j + y) = st.window (src.drop (j * st.lineIn)) y := by
  rw [window, window, List.drop_drop, Nat.add_mul j y]

/-- The lines can be made in two goes. -/
theorem lines_add (st : LineStage α) (j n : Nat) (src : List α) :
    st.lines (j + n) src = st.lines j src ++ st.lines n (src.drop (j * st.lineIn)) := by
  rw [lines, List.range_add, List.flatMap_append, List.flatMap_map]
  simp only [window_add]
  rfl

theorem window_append {y : Nat} (h : (y + 1 + st.ahead) * st.lineIn ≤ src.length) :
    st.window (src ++ more) y = st.window src y := by
  have hsplit : (y + 1 + st.ahead) * st.lineIn
      = y * st.lineIn + (st.ahead + 1) * st.lineIn := by
    rw [← Nat.add_mul]
    congr 1
    omega
  rw [hsplit] at h
  rw [window, window, List.drop_append_of_le_length (by omega),
    List.take_append_of_le_length (by rw [List.length_drop]; omega)]

/-- What comes later changes nothing. -/
theorem lines_append (h : st.Enough n src) (more : List α) :
    st.lines n (src ++ more) = st.lines n src := by
  rcases h with rfl | h
  · rfl
  · have hsame : ∀ y ∈ List.range n, st.line (st.window (src ++ more) y)
        = st.line (st.window src y) := by
      intro y hy
      have hy' : y + 1 ≤ n := List.mem_range.mp hy
      rw [window_append ((Nat.mul_le_mul_right _ (by omega)).trans h)]
    exact List.flatMap_congr hsame

theorem Enough.append (h : st.Enough n src) (more : List α) : st.Enough n (src ++ more) := by
  rcases h with h | h
  · exact .inl h
  · rw [Enough, List.length_append]
    exact .inr (by omega)

/-- So many more lines can be made of what follows the lines that have been used. -/
theorem Enough.add (hn : (n + st.ahead) * st.lineIn ≤ (src.drop (j * st.lineIn)).length)
    (hpos : 0 < n) (hline : 0 < st.lineIn) : st.Enough (j + n) src := by
  have hmul : 0 < (n + st.ahead) * st.lineIn := Nat.mul_pos (by omega) hline
  have hsum : (j + n + st.ahead) * st.lineIn
      = j * st.lineIn + (n + st.ahead) * st.lineIn := by
    rw [Nat.add_assoc, Nat.add_mul]
  rw [List.length_drop] at hn
  exact .inr (by omega)

theorem lines_isPrefix_whole (hline : 0 < st.lineIn) (h : st.Enough n src) :
    st.lines n src <+: st.whole src := by
  have hle : n ≤ src.length / st.lineIn - st.ahead := by
    rcases h with rfl | h
    · exact Nat.zero_le _
    · have := (Nat.le_div_iff_mul_le hline).mpr h
      omega
  obtain ⟨d, hd⟩ := Nat.exists_eq_add_of_le hle
  rw [whole, hd, lines_add]
  exact List.prefix_append _ _

/-! ### One piece of the input after the other -/

/-- How many lines can be made. -/
def count (st : LineStage α) (src : List α) : Nat := src.length / st.lineIn - st.ahead

theorem enough_count (st : LineStage α) (src : List α) : st.Enough (st.count src) src := by
  rw [Enough]
  rcases Nat.eq_zero_or_pos (st.count src) with h0 | hpos
  · exact .inl h0
  · right
    rw [count] at hpos ⊢
    rw [Nat.sub_add_cancel (by omega)]
    exact Nat.div_mul_le_self _ _

/-- What has not been used up, with more behind it, makes the lines that are missing. -/
theorem count_append (src more : List α) :
    st.count (src ++ more)
      = st.count src + st.count ((src ++ more).drop (st.count src * st.lineIn)) := by
  have hle : src.length / st.lineIn ≤ (src ++ more).length / st.lineIn := by
    apply Nat.div_le_div_right
    rw [List.length_append]
    omega
  have hdiv : (src ++ more).length / st.lineIn - st.count src
      = ((src ++ more).length - st.count src * st.lineIn) / st.lineIn := by
    rw [Nat.mul_comm, Nat.sub_mul_div]
  have hcount : st.count src = src.length / st.lineIn - st.ahead := rfl
  generalize st.count src = k at hdiv hcount
  rw [count, count, List.length_drop, ← hdiv]
  omega

theorem whole_append (src more : List α) :
    st.whole (src ++ more)
      = st.whole src ++ st.whole ((src ++ more).drop (st.count src * st.lineIn)) := by
  have hfirst : st.lines (st.count src) (src ++ more) = st.whole src :=
    lines_append (st.enough_count src) more
  have hwhole : st.whole (src ++ more) = st.lines (st.count (src ++ more)) (src ++ more) := rfl
  rw [hwhole, count_append, lines_add, hfirst]
  rfl

theorem whole_mono (h : src <+: src') : st.whole src <+: st.whole src' := by
  obtain ⟨more, rfl⟩ := h
  rw [whole_append]
  exact List.prefix_append _ _

/-- `P` holds of what the first `n` lines are made of. -/
def AllWindows (st : LineStage α) (P : List α → Prop) (n : Nat) (src : List α) : Prop :=
  ∀ y < n, P (st.window src y)

instance (st : LineStage α) (P : List α → Prop) [DecidablePred P] (n : Nat) (src : List α) :
    Decidable (st.AllWindows P n src) :=
  inferInstanceAs (Decidable (∀ y < n, P (st.window src y)))

variable {P : List α → Prop}

theorem allWindows_add (st : LineStage α) (j n : Nat) (src : List α) :
    st.AllWindows P (j + n) src ↔
      st.AllWindows P j src ∧ st.AllWindows P n (src.drop (j * st.lineIn)) := by
  constructor
  · intro h
    refine ⟨fun y hy => h y (by omega), fun y hy => ?_⟩
    rw [← window_add]
    exact h _ (by omega)
  · rintro ⟨hfirst, hmore⟩ y hy
    rcases Nat.lt_or_ge y j with hlt | hge
    · exact hfirst y hlt
    · obtain ⟨d, rfl⟩ := Nat.exists_eq_add_of_le hge
      rw [window_add]
      exact hmore d (by omega)

theorem allWindows_append (h : st.Enough n src) (more : List α) :
    st.AllWindows P n (src ++ more) ↔ st.AllWindows P n src := by
  rcases h with rfl | h
  · exact ⟨fun _ y hy => absurd hy (Nat.not_lt_zero y), fun _ y hy => absurd hy (Nat.not_lt_zero y)⟩
  · have hsame : ∀ y < n, st.window (src ++ more) y = st.window src y := by
      intro y hy
      exact window_append ((Nat.mul_le_mul_right _ (by omega)).trans h)
    constructor
    · intro hall y hy
      rw [← hsame y hy]
      exact hall y hy
    · intro hall y hy
      rw [hsame y hy]
      exact hall y hy

theorem allWindows_count (src more : List α) :
    st.AllWindows P (st.count (src ++ more)) (src ++ more) ↔
      st.AllWindows P (st.count src) src ∧
        st.AllWindows P (st.count ((src ++ more).drop (st.count src * st.lineIn)))
          ((src ++ more).drop (st.count src * st.lineIn)) := by
  rw [count_append, allWindows_add, allWindows_append (st.enough_count src)]

/-- Lines of one length. -/
theorem length_lines {m : Nat} (h : (n + st.ahead) * st.lineIn ≤ src.length)
    (hline : ∀ window : List α, window.length = (st.ahead + 1) * st.lineIn →
      (st.line window).length = m) : (st.lines n src).length = n * m := by
  have hall : ∀ y ∈ List.range n, (st.line (st.window src y)).length = m := by
    intro y hy
    have hy' : y + 1 + st.ahead ≤ n + st.ahead := by
      have := List.mem_range.mp hy
      omega
    have hle := (Nat.mul_le_mul_right st.lineIn hy').trans h
    have hsum : (y + 1 + st.ahead) * st.lineIn
        = y * st.lineIn + (st.ahead + 1) * st.lineIn := by
      rw [← Nat.add_mul]
      congr 1
      omega
    apply hline
    rw [window, List.length_take, List.length_drop]
    omega
  rw [lines, List.length_flatMap, List.map_congr_left hall, List.map_const', List.sum_replicate_nat,
    List.length_range]

end LineStage

/-! ### Copying -/

/-- A loop over `n` lines that copies cells, for each line those at the indices `idx` counted
    from its beginning; it is undefined if one of them does not exist. -/
def copyLines (line : Nat) (idx : List Nat) (n : Nat) (src : List α) : Option (List α) :=
  ((List.range n).flatMap fun y => idx.map fun i => y * line + i).mapM fun i => src[i]?

/-- A function that makes `n` lines is what the stage says as far as the input suffices. -/
def Computes (f : Nat → List α → Option (List α)) (st : LineStage α) : Prop :=
  ∀ n src, 0 < n → (n + st.ahead) * st.lineIn ≤ src.length → f n src = some (st.lines n src)

theorem mapM_getElem? {src : List α} {is : List Nat} (h : ∀ i ∈ is, i < src.length) :
    (is.mapM fun i => src[i]?) = some (is.filterMap fun i => src[i]?) := by
  induction is with
  | nil => rfl
  | cons i is ih =>
    have hlt : i < src.length := h i List.mem_cons_self
    have hi : src[i]? = some src[i] := List.getElem?_eq_getElem hlt
    rw [List.mapM_cons, List.filterMap_cons_some hi, hi,
      ih fun k hk => h k (List.mem_cons_of_mem _ hk)]
    rfl

/-- The stage that copies cells of a line and of those below it. -/
def copyStage (line ahead : Nat) (idx : List Nat) : LineStage α where
  lineIn := line
  ahead := ahead
  line window := idx.filterMap fun i => window[i]?

theorem computes_copyLines {line ahead : Nat} {idx : List Nat}
    (h : ∀ i ∈ idx, i < (ahead + 1) * line) :
    Computes (copyLines line idx) (copyStage line ahead idx : LineStage α) := by
  intro n src _ hn
  have hin : ∀ i ∈ (List.range n).flatMap fun y => idx.map fun i => y * line + i,
      i < src.length := by
    intro k hk
    obtain ⟨y, hy, hk⟩ := List.mem_flatMap.mp hk
    obtain ⟨i, hi, rfl⟩ := List.mem_map.mp hk
    have hy' : y + 1 + ahead ≤ n + ahead := by
      have := List.mem_range.mp hy
      omega
    have hle := (Nat.mul_le_mul_right line hy').trans hn
    have hsum : (y + 1 + ahead) * line = y * line + (ahead + 1) * line := by
      rw [← Nat.add_mul]
      congr 1
      omega
    have := h i hi
    omega
  rw [copyLines, mapM_getElem? hin, List.filterMap_flatMap]
  congr 1
  rw [LineStage.lines]
  apply List.flatMap_congr
  intro y _
  rw [List.filterMap_map]
  apply List.filterMap_congr
  intro i hi
  simp only [copyStage, LineStage.window, Function.comp_apply]
  rw [List.getElem?_take_of_lt (h i hi), List.getElem?_drop]

theorem length_copyStage {line ahead : Nat} {idx : List Nat} {window : List α}
    (h : ∀ i ∈ idx, i < window.length) :
    ((copyStage line ahead idx).line window).length = idx.length := by
  induction idx with
  | nil => rfl
  | cons i idx ih =>
    have hlt : i < window.length := h i List.mem_cons_self
    have hrest := ih fun k hk => h k (List.mem_cons_of_mem _ hk)
    simp only [copyStage] at hrest ⊢
    rw [List.filterMap_cons_some (List.getElem?_eq_getElem hlt), List.length_cons,
      List.length_cons, hrest]

/-- A loop over cells is a loop over lines of `p` cells. -/
theorem copyLines_mul (line p n : Nat) (idx : List Nat) (src : List α) :
    copyLines line idx (n * p) src =
      copyLines (p * line) ((List.range p).flatMap fun x => idx.map fun i => x * line + i) n
        src := by
  have hrange : (List.range (n * p)).flatMap (fun y => idx.map fun i => y * line + i) =
      (List.range n).flatMap fun y =>
        ((List.range p).flatMap fun x => idx.map fun i => x * line + i).map
          fun i => y * (p * line) + i := by
    induction n with
    | zero => simp
    | succ n ih =>
      rw [Nat.succ_mul, List.range_add, List.flatMap_append, ih, List.range_succ,
        List.flatMap_append, List.flatMap_singleton, List.flatMap_map, List.map_flatMap]
      congr 1
      apply List.flatMap_congr
      intro x _
      rw [List.map_map]
      apply List.map_congr_left
      intro i _
      simp only [Function.comp_apply]
      rw [Nat.add_mul, Nat.mul_assoc, Nat.add_assoc]
  rw [copyLines, copyLines, hrange]

/-! ### Using up the input -/

/-- A loop over `n` lines, each of which uses up a part of the input. -/
def consumeLines (f : List α → Option (List α × List α)) : Nat → List α → Option (List α)
  | 0, _ => some []
  | n + 1, src => do
    let (out, rest) ← f src
    let more ← consumeLines f n rest
    some (out ++ more)

/-- If each turn uses up a whole line, the loop is a stage. -/
theorem computes_consumeLines {f : List α → Option (List α × List α)} {line : Nat}
    {g : List α → List α}
    (h : ∀ l rest, l.length = line → f (l ++ rest) = some (g l, rest)) :
    Computes (consumeLines f) { lineIn := line, ahead := 0, line := g } := by
  intro n src _ hn
  dsimp only at hn
  rw [Nat.add_zero] at hn
  induction n generalizing src with
  | zero => rfl
  | succ n ih =>
    rw [Nat.succ_mul] at hn
    have hfirst : (src.take line).length = line := by
      rw [List.length_take]
      omega
    have hf := h (src.take line) (src.drop line) hfirst
    rw [List.take_append_drop] at hf
    have hmore : consumeLines f n (src.drop line)
        = some (LineStage.lines { lineIn := line, ahead := 0, line := g } n (src.drop line)) := by
      rcases Nat.eq_zero_or_pos n with rfl | hpos
      · rfl
      · apply ih _ hpos
        rw [List.length_drop]
        omega
    rw [consumeLines, hf, Nat.add_comm n 1, LineStage.lines_add]
    simp only [Option.bind_eq_bind, Option.bind_some, hmore]
    simp [LineStage.lines, LineStage.window]

end SaneBackends.LineStages
