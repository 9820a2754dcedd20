import SaneBackends.SnapscanSources
import SaneBackends.RingWindow
import Mathlib.Tactic.SplitIfs

/-!
# The base sources of the SnapScan backend

Each of them gives the bytes that the device, the pipe or the buffer holds, in their
order and however few of them a read returns, and counts exactly what is left.  If every
read brings something, it gives all that it is asked for.
-/

namespace SaneBackends

open Overwrite PullStream RingWindow

/-- Numbers below 2^31 are the same as a `SANE_Int`. -/
theorem saneInt_of_lt {x : Int} (hlow : -2 ^ 31 ≤ x) (hhigh : x < 2 ^ 31) : saneInt x = x := by
  rw [saneInt, BitVec.toInt_ofInt]
  exact Int.bmod_eq_of_le (by omega) (by omega)

theorem saneInt_ge (x : Int) : -2 ^ 31 ≤ saneInt x := by
  rw [saneInt, BitVec.toInt_ofInt]
  exact Int.le_bmod (by norm_num)

/-- A cell of the window is read. -/
theorem readCell_window {cells : List (Option SaneByte)} {t i : Nat} (h : Window cells w t)
    (hi : i < t) (hrecent : t ≤ i + cells.length) (ht : t ≤ w.length) :
    readCell cells (i % cells.length : Nat) = some (w.getD i 0) := by
  rw [readCell, if_neg (by omega), Int.toNat_natCast, h i hi hrecent, List.getD_eq_getElem?_getD,
    List.getElem?_eq_getElem (by omega)]
  rfl

/-- What has been taken, and what is left behind it. -/
theorem take_append_drop_length (xs : List SaneByte) (n : Nat) :
    xs.take n ++ xs.drop (xs.take n).length = xs := by
  rw [List.length_take]
  rcases Nat.le_total n xs.length with hshort | hlong
  · rw [Nat.min_eq_left hshort, List.take_append_drop]
  · rw [Nat.min_eq_right hlong, List.take_of_length_le hlong, List.drop_length, List.append_nil]

theorem take_prefix_drop {w xs rest : List SaneByte} {k : Nat} (h : xs ++ rest = w.drop k) :
    xs <+: w.drop k ∧ rest = w.drop (k + xs.length) := by
  refine ⟨⟨rest, h⟩, ?_⟩
  rw [← List.drop_drop, ← h, List.drop_left]

/-! ### The device -/

/-- `k` bytes of `w` have been given: the rest is in the buffer and in the device. -/
structure SCSISource.At (w : List SaneByte) (s : SCSISource) (k : Nat) : Prop where
  le : k ≤ w.length
  inside : s.scsiBufPos ≤ s.buf.length
  rest : s.buf.drop s.scsiBufPos ++ s.unread = w.drop k

theorem SCSISource.At.remaining {w : List SaneByte} {s : SCSISource} {k : Nat} (h : s.At w k)
    (hw : w.length < 2 ^ 31) : s.remaining = w.length - k := by
  have hlen := congrArg List.length h.rest
  have hle := h.le
  have hinside := h.inside
  rw [List.length_append, List.length_drop, List.length_drop] at hlen
  rw [SCSISource.remaining, saneInt_of_lt (by omega) (by omega)]
  omega

theorem scsiRead_at {w : List SaneByte} {s s' : SCSISource} {k : Nat} (h : s.At w k)
    (hempty : s.buf.length - s.scsiBufPos = 0) (hread : s.scsiRead = some (.good, s')) :
    s'.At w k := by
  obtain ⟨hle, hinside, hrest⟩ := h
  rw [List.drop_eq_nil_of_le (by omega), List.nil_append] at hrest
  unfold SCSISource.scsiRead at hread
  split at hread
  · cases hread
  · cases hread
    refine ⟨hle, Nat.zero_le _, ?_⟩
    show (s.unread.take _).drop 0 ++ s.unread.drop _ = w.drop k
    rw [List.drop_zero, List.take_append_drop, hrest]
  · cases hread

theorem scsiCopy_at {w : List SaneByte} {s : SCSISource} {k : Nat} (h : s.At w k) (n : Nat) :
    (s.copy n).1.length ≤ n ∧ (s.copy n).1 <+: w.drop k ∧
      (s.copy n).2.At w (k + (s.copy n).1.length) := by
  obtain ⟨hle, hinside, hrest⟩ := h
  have hsplit : (s.copy n).1 ++ ((s.buf.drop (s.scsiBufPos + (s.copy n).1.length)) ++ s.unread) =
      w.drop k := by
    rw [← hrest, ← List.append_assoc, ← List.drop_drop]
    congr 1
    exact take_append_drop_length _ n
  have hlen := congrArg List.length hsplit
  rw [List.length_append, List.length_drop] at hlen
  obtain ⟨hfront, hdrop⟩ := take_prefix_drop hsplit
  refine ⟨List.length_take_le _ _, hfront, ?_, ?_, hdrop⟩
  · omega
  · show s.scsiBufPos + ((s.buf.drop s.scsiBufPos).take n).length ≤ s.buf.length
    rw [List.length_take, List.length_drop]
    omega

theorem scsiLoop_gives {w : List SaneByte} {fuel n k : Nat} {s s' : SCSISource}
    {out out' : List SaneByte} (h : s.At w k)
    (hloop : SCSISource.getLoop fuel n s out = some (.good, out', s')) :
    Gives (SCSISource.At w) w n k out out' s' := by
  induction fuel generalizing n k s out with
  | zero =>
    cases hloop
    exact Gives.nil h
  | succ fuel ih =>
    have hcopy : ∀ u : SCSISource, u.At w k →
        SCSISource.getLoop fuel (n - (u.copy n).1.length) (u.copy n).2 (out ++ (u.copy n).1) =
          some (.good, out', s') →
        Gives (SCSISource.At w) w n k out out' s' := by
      intro u hu hrest
      obtain ⟨hlen, hfront, hat⟩ := scsiCopy_at hu n
      exact Gives.step hlen hfront (ih hat hrest)
    rw [SCSISource.getLoop] at hloop
    split_ifs at hloop with hdone hempty
    · cases hloop
      exact Gives.nil h
    · cases hread : s.scsiRead with
      | none =>
        rw [hread] at hloop
        cases hloop
      | some answer =>
        obtain ⟨status, u⟩ := answer
        simp only [hread] at hloop
        by_cases hstatus : status = .good
        · subst hstatus
          rw [if_neg (not_not.mpr rfl)] at hloop
          exact hcopy u (scsiRead_at h hempty hread) hloop
        · rw [if_pos hstatus] at hloop
          exact absurd (congrArg (·.1) (Option.some.inj hloop)) hstatus
    · exact hcopy s h hloop

/-- The read brings bytes. -/
def ReadAnswer.Brings : ReadAnswer → Prop
  | .deliver n => 0 < n
  | _ => False

/-- Every answer brings bytes, and there are enough of them for `left` bytes. -/
def Ample (answers : List ReadAnswer) (left : Nat) : Prop :=
  (∀ a ∈ answers, a.Brings) ∧ left ≤ answers.length

/-- Each answer is for a byte at least. -/
theorem Ample.tail {a : ReadAnswer} {answers : List ReadAnswer} {left left' : Nat}
    (h : Ample (a :: answers) left) (hless : left' < left ∨ left' = 0) : Ample answers left' := by
  have hlen := h.2
  rw [List.length_cons] at hlen
  exact ⟨fun b hb => h.1 b (List.mem_cons_of_mem a hb), by omega⟩

/-- The device brings bytes as long as it has some. -/
def SCSISource.Prompt (s : SCSISource) : Prop :=
  0 < s.absoluteMax ∧ Ample s.answers s.unread.length

/-- A read of a prompt device brings a byte at least, if there is one. -/
theorem scsiRead_prompt {s : SCSISource} (h : s.Prompt) (hunread : s.unread ≠ []) :
    ∃ s', s.scsiRead = some (.good, s') ∧ s'.Prompt ∧ s'.scsiBufPos = 0 ∧ s'.buf ≠ [] := by
  obtain ⟨hmax, hample⟩ := h
  have hpos := List.length_pos_iff.mpr hunread
  unfold SCSISource.scsiRead
  cases hanswers : s.answers with
  | nil =>
    rw [hanswers] at hample
    exact absurd hample.2 (Nat.not_le_of_lt hpos)
  | cons a answers =>
    rw [hanswers] at hample
    have hbrings := hample.1 a List.mem_cons_self
    cases a with
    | again => exact hbrings.elim
    | eof => exact hbrings.elim
    | fail => exact hbrings.elim
    | deliver n =>
      have hn : 0 < n := hbrings
      have hread : 0 < min n (min s.absoluteMax s.unread.length) :=
        Nat.lt_min.mpr ⟨hn, Nat.lt_min.mpr ⟨hmax, hpos⟩⟩
      refine ⟨_, rfl, ⟨hmax, ?_⟩, rfl, ?_⟩
      · refine hample.tail (.inl ?_)
        simp only [List.length_drop]
        omega
      · apply List.ne_nil_of_length_pos
        simp only [List.length_take]
        omega

theorem scsiRead_keeps {s s' : SCSISource} (h : s.Prompt)
    (hread : s.scsiRead = some (.good, s')) : s'.Prompt := by
  by_cases hunread : s.unread = []
  · obtain ⟨hmax, hample⟩ := h
    unfold SCSISource.scsiRead at hread
    split at hread
    · cases hread
    · rename_i n answers hanswers
      cases hread
      rw [hanswers] at hample
      refine ⟨hmax, hample.tail (.inr ?_)⟩
      simp only [hunread, List.drop_nil, List.length_nil]
    · cases hread
  · obtain ⟨u, hu, hprompt, -⟩ := scsiRead_prompt h hunread
    rw [hu] at hread
    cases hread
    exact hprompt

theorem scsiLoop_keeps {fuel n : Nat} {s s' : SCSISource} {out out' : List SaneByte}
    (h : s.Prompt) (hloop : SCSISource.getLoop fuel n s out = some (.good, out', s')) :
    s'.Prompt := by
  induction fuel generalizing n s out with
  | zero =>
    cases hloop
    exact h
  | succ fuel ih =>
    rw [SCSISource.getLoop] at hloop
    split_ifs at hloop with hdone hempty
    · cases hloop
      exact h
    · cases hread : s.scsiRead with
      | none =>
        rw [hread] at hloop
        cases hloop
      | some answer =>
        obtain ⟨status, u⟩ := answer
        simp only [hread] at hloop
        by_cases hstatus : status = .good
        · subst hstatus
          rw [if_neg (not_not.mpr rfl)] at hloop
          have hu : u.Prompt := scsiRead_keeps h hread
          have hcopied : (u.copy n).2.Prompt := hu
          exact ih hcopied hloop
        · rw [if_pos hstatus] at hloop
          exact absurd (congrArg (·.1) (Option.some.inj hloop)) hstatus
    · have hs : (s.copy n).2.Prompt := h
      exact ih hs hloop

theorem scsiLoop_full {w : List SaneByte} (hw : w.length < 2 ^ 31) {fuel n k : Nat}
    {s : SCSISource} {out : List SaneByte} (h : s.At w k) (hprompt : s.Prompt) (hfuel : n ≤ fuel)
    (hle : k + n ≤ w.length) :
    ∃ s', SCSISource.getLoop fuel n s out = some (.good, out ++ (w.drop k).take n, s') := by
  induction fuel generalizing n k s out with
  | zero =>
    obtain rfl : n = 0 := by omega
    exact ⟨s, by rw [SCSISource.getLoop, List.take_zero, List.append_nil]⟩
  | succ fuel ih =>
    rcases Nat.eq_zero_or_pos n with rfl | hn
    · exact ⟨s, by rw [SCSISource.getLoop, if_pos (.inl rfl), List.take_zero, List.append_nil]⟩
    have hcopy : ∀ u : SCSISource, u.At w k → u.Prompt → u.scsiBufPos < u.buf.length →
        ∃ s', SCSISource.getLoop fuel (n - (u.copy n).1.length) (u.copy n).2
          (out ++ (u.copy n).1) = some (.good, out ++ (w.drop k).take n, s') := by
      intro u hu hprompt hbuf
      obtain ⟨hlen, hfront, hat⟩ := scsiCopy_at hu n
      have hsome : 0 < (u.copy n).1.length := by
        show 0 < ((u.buf.drop u.scsiBufPos).take n).length
        rw [List.length_take, List.length_drop]
        omega
      have hkeeps : (u.copy n).2.Prompt := hprompt
      obtain ⟨s', hs'⟩ := @ih (n - (u.copy n).1.length) _ _ (out ++ (u.copy n).1) hat hkeeps
        (by omega) (by omega)
      rw [List.append_assoc, append_take_drop hfront hlen] at hs'
      exact ⟨s', hs'⟩
    have hremaining : ¬ s.remaining ≤ 0 := by
      rw [h.remaining hw]
      omega
    rw [SCSISource.getLoop, if_neg (not_or.mpr ⟨hn.ne', hremaining⟩)]
    split_ifs with hempty
    · have hunread : s.unread ≠ [] := by
        intro hnone
        have hrest := congrArg List.length h.rest
        rw [hnone, List.append_nil, List.length_drop, List.length_drop] at hrest
        omega
      obtain ⟨u, hread, hu, hpos, hbuf⟩ := scsiRead_prompt hprompt hunread
      simp only [hread, ne_eq, not_true_eq_false, if_false]
      refine hcopy u (scsiRead_at h hempty hread) hu ?_
      rw [hpos]
      exact List.length_pos_iff.mpr hbuf
    · exact hcopy s h hprompt (by omega)

/-! ### The pipe and the buffer -/

/-- The same for the pipe. -/
structure FDSource.At (w : List SaneByte) (s : FDSource) (k : Nat) : Prop where
  le : k ≤ w.length
  count : s.bytesRemaining = w.length - k
  rest : s.unread = w.drop k

theorem fdLoop_gives {w : List SaneByte} {answers : List ReadAnswer} {n k : Nat}
    {s s' : FDSource} {out out' : List SaneByte} (h : s.At w k)
    (hloop : FDSource.getLoop answers n s out = some (.good, out', s')) :
    Gives (FDSource.At w) w n k out out' s' := by
  induction answers generalizing n k s out with
  | nil =>
    unfold FDSource.getLoop at hloop
    split_ifs at hloop
    cases hloop
    exact Gives.nil ⟨h.le, h.count, h.rest⟩
  | cons answer answers ih =>
    unfold FDSource.getLoop at hloop
    split_ifs at hloop with hdone
    · cases hloop
      exact Gives.nil ⟨h.le, h.count, h.rest⟩
    · cases answer with
      | again =>
        cases hloop
        exact Gives.nil ⟨h.le, h.count, h.rest⟩
      | eof =>
        cases hloop
        exact Gives.nil ⟨h.le, h.count, h.rest⟩
      | fail => cases hloop
      | deliver m =>
        simp only at hloop
        split_ifs at hloop with hnone
        · cases hloop
          exact Gives.nil ⟨h.le, h.count, h.rest⟩
        · have hsplit : s.unread.take (min m n) ++
              s.unread.drop (s.unread.take (min m n)).length = w.drop k :=
            (take_append_drop_length _ _).trans h.rest
          have hlen := congrArg List.length hsplit
          obtain ⟨hfront, hdrop⟩ := take_prefix_drop hsplit
          rw [List.length_append, List.length_drop, List.length_drop] at hlen
          refine Gives.step ?_ hfront (ih ⟨?_, ?_, hdrop⟩ hloop)
          · exact (List.length_take_le _ _).trans (Nat.min_le_right m n)
          · have hle := h.le
            omega
          · have hcount := h.count
            simp only
            omega

def FDSource.Prompt (s : FDSource) : Prop := Ample s.answers s.unread.length

theorem fdLoop_keeps {answers : List ReadAnswer} {n : Nat} {s s' : FDSource}
    {out out' : List SaneByte} (h : Ample answers s.unread.length)
    (hloop : FDSource.getLoop answers n s out = some (.good, out', s')) : s'.Prompt := by
  induction answers generalizing n s out with
  | nil =>
    unfold FDSource.getLoop at hloop
    split_ifs at hloop
    cases hloop
    exact h
  | cons answer answers ih =>
    unfold FDSource.getLoop at hloop
    have hbrings := h.1 answer List.mem_cons_self
    split_ifs at hloop with hdone
    · cases hloop
      exact h
    · cases answer with
      | again => exact hbrings.elim
      | eof => exact hbrings.elim
      | fail => exact hbrings.elim
      | deliver m =>
        have hm : 0 < m := hbrings
        simp only at hloop
        split_ifs at hloop with hnone
        · cases hloop
          refine h.tail (.inr ?_)
          rw [List.length_take] at hnone
          show s.unread.length = 0
          omega
        · refine ih (h.tail (.inl ?_)) hloop
          simp only [List.length_drop]
          have hlen := List.length_take_le' (min m n) s.unread
          omega

theorem fdLoop_full {w : List SaneByte} {answers : List ReadAnswer} {n k : Nat} {s : FDSource}
    {out : List SaneByte} (h : s.At w k) (hample : Ample answers s.unread.length)
    (hle : k + n ≤ w.length) :
    ∃ s', FDSource.getLoop answers n s out = some (.good, out ++ (w.drop k).take n, s') := by
  induction answers generalizing n k s out with
  | nil =>
    have hleft := hample.2
    rw [h.rest, List.length_drop, List.length_nil] at hleft
    obtain rfl : n = 0 := by omega
    refine ⟨{ s with answers := [] }, ?_⟩
    unfold FDSource.getLoop
    rw [if_pos (.inl rfl), List.take_zero, List.append_nil]
  | cons answer answers ih =>
    rcases Nat.eq_zero_or_pos n with rfl | hn
    · refine ⟨{ s with answers := answer :: answers }, ?_⟩
      unfold FDSource.getLoop
      rw [if_pos (.inl rfl), List.take_zero, List.append_nil]
    have hremaining : ¬ s.remaining ≤ 0 := by
      rw [FDSource.remaining, h.count]
      omega
    have hbrings := hample.1 answer List.mem_cons_self
    unfold FDSource.getLoop
    rw [if_neg (not_or.mpr ⟨hn.ne', hremaining⟩)]
    cases answer with
    | again => exact hbrings.elim
    | eof => exact hbrings.elim
    | fail => exact hbrings.elim
    | deliver m =>
      have hm : 0 < m := hbrings
      have hsplit : s.unread.take (min m n) ++
          s.unread.drop (s.unread.take (min m n)).length = w.drop k :=
        (take_append_drop_length _ _).trans h.rest
      obtain ⟨hfront, hdrop⟩ := take_prefix_drop hsplit
      have hlen : (s.unread.take (min m n)).length = min (min m n) (w.length - k) := by
        rw [List.length_take, h.rest, List.length_drop]
      have hcount := h.count
      simp only
      rw [if_neg (by omega)]
      obtain ⟨s', hs'⟩ := @ih (n - (s.unread.take (min m n)).length)
        (k + (s.unread.take (min m n)).length)
        { s with
          unread := s.unread.drop (s.unread.take (min m n)).length
          bytesRemaining := s.bytesRemaining - (s.unread.take (min m n)).length }
        (out ++ s.unread.take (min m n)) ⟨by omega, by simp only; omega, hdrop⟩
        (hample.tail (.inl (by
          have hleft := congrArg List.length h.rest
          rw [List.length_drop] at hleft
          simp only [List.length_drop]
          omega))) (by omega)
      rw [List.append_assoc, append_take_drop hfront (by omega)] at hs'
      exact ⟨s', hs'⟩

/-- The same for the buffer. -/
structure BufSource.At (w : List SaneByte) (s : BufSource) (k : Nat) : Prop where
  le : k ≤ w.length
  buf : s.buf = w
  pos : s.bufPos = k

theorem BufSource.At.remaining {w : List SaneByte} {s : BufSource} {k : Nat} (h : s.At w k)
    (hw : w.length < 2 ^ 31) : s.remaining = w.length - k := by
  have hle := h.le
  rw [BufSource.remaining, h.buf, h.pos, saneInt_of_lt (by omega) (by omega)]

theorem bufGet_gives {w : List SaneByte} {n k : Nat} {s s' : BufSource} {out : List SaneByte}
    (hw : w.length < 2 ^ 31) (h : s.At w k) (hget : s.get n = some (.good, out, s')) :
    Gives (BufSource.At w) w n k [] out s' := by
  have hremaining := h.remaining hw
  have hle := h.le
  unfold BufSource.get at hget
  simp only at hget
  split_ifs at hget with hzero
  · cases hget
  · cases hget
    rw [h.buf, h.pos, hremaining]
    have hmove : min (n : Int) (w.length - k) = (min n (w.length - k) : Nat) := by omega
    rw [hmove, Int.toNat_natCast]
    have hlen : ((w.drop k).take (min n (w.length - k))).length = min n (w.length - k) := by
      rw [List.length_take, List.length_drop, Nat.min_assoc, Nat.min_self]
    refine ⟨_, (List.nil_append _).symm, ?_, List.take_prefix _ _, ?_, ?_, ?_⟩
    · exact hlen.le.trans (Nat.min_le_left _ _)
    · omega
    · rfl
    · rw [hlen]

/-! ### Any base source -/

def BaseSource.At (w : List SaneByte) : BaseSource → Nat → Prop
  | .scsi s, k => s.At w k
  | .fd s, k => s.At w k
  | .buf s, k => s.At w k

theorem BaseSource.At.le {w : List SaneByte} {s : BaseSource} {k : Nat} (h : s.At w k) :
    k ≤ w.length := by
  cases s with
  | scsi s => exact SCSISource.At.le h
  | fd s => exact FDSource.At.le h
  | buf s => exact BufSource.At.le h

theorem BaseSource.At.remaining {w : List SaneByte} {s : BaseSource} {k : Nat} (h : s.At w k)
    (hw : w.length < 2 ^ 31) : s.remaining = w.length - k := by
  cases s with
  | scsi s => exact SCSISource.At.remaining h hw
  | fd s => exact FDSource.At.count h
  | buf s => exact BufSource.At.remaining h hw

theorem Gives.map {σ σ' : Type} {w : List SaneByte} {At : σ → Nat → Prop} {At' : σ' → Nat → Prop}
    {n k : Nat} {out out' : List SaneByte} {s : σ} {s' : σ'}
    (h : Gives At w n k out out' s) (hat : ∀ {k}, At s k → At' s' k) :
    Gives At' w n k out out' s' := by
  obtain ⟨xs, hout, hlen, hfront, hs⟩ := h
  exact ⟨xs, hout, hlen, hfront, hat hs⟩

theorem baseGet_gives {w : List SaneByte} {n k : Nat} {s s' : BaseSource} {out : List SaneByte}
    (hw : w.length < 2 ^ 31) (h : s.At w k) (hget : s.get n = some (.good, out, s')) :
    Gives (BaseSource.At w) w n k [] out s' := by
  cases s with
  | scsi s =>
    obtain ⟨⟨status, bytes, u⟩, hu, heq⟩ := Option.map_eq_some_iff.mp hget
    cases heq
    exact Gives.map (scsiLoop_gives h hu) id
  | fd s =>
    obtain ⟨⟨status, bytes, u⟩, hu, heq⟩ := Option.map_eq_some_iff.mp hget
    cases heq
    exact Gives.map (fdLoop_gives h hu) id
  | buf s =>
    obtain ⟨⟨status, bytes, u⟩, hu, heq⟩ := Option.map_eq_some_iff.mp hget
    cases heq
    exact Gives.map (bufGet_gives hw h hu) id

/-- A base source gives its bytes, wherever the requests end. -/
theorem base_delivers {w : List SaneByte} (hw : w.length < 2 ^ 31) (pss : SnapScanScanner)
    (fit : Nat → Prop) :
    Delivers (baseSource pss).toPullSource SaneStatus.good w 0 fit (BaseSource.At w) where
  le h := h.le
  get h _ hget := baseGet_gives hw h hget
  remaining_pos {s k} h hk := by
    show 0 < s.remaining
    rw [h.remaining hw]
    omega
  remaining_nonneg {s k} h _ := by
    have hle := BaseSource.At.le h
    show 0 ≤ s.remaining
    rw [h.remaining hw]
    omega
  remaining_le {s k} h := by
    show s.remaining + k ≤ w.length + (0 : Nat)
    rw [h.remaining hw]
    omega

theorem base_counts {w : List SaneByte} (hw : w.length < 2 ^ 31) (pss : SnapScanScanner) :
    Counts (baseSource pss).toPullSource w (BaseSource.At w) := by
  intro s k h
  show (w.length : Int) ≤ k + s.remaining
  rw [h.remaining hw]
  omega

/-- Each read brings something as long as there is something; a buffer needs none. -/
def BaseSource.Prompt : BaseSource → Prop
  | .scsi s => s.Prompt
  | .fd s => s.Prompt
  | .buf _ => True

/-- A prompt source stays so. -/
theorem baseGet_keeps {n : Nat} {s s' : BaseSource} {out : List SaneByte} (h : s.Prompt)
    (hget : s.get n = some (.good, out, s')) : s'.Prompt := by
  cases s with
  | scsi s =>
    obtain ⟨⟨status, bytes, u⟩, hu, heq⟩ := Option.map_eq_some_iff.mp hget
    cases heq
    exact scsiLoop_keeps h hu
  | fd s =>
    obtain ⟨⟨status, bytes, u⟩, hu, heq⟩ := Option.map_eq_some_iff.mp hget
    cases heq
    exact fdLoop_keeps h hu
  | buf s =>
    obtain ⟨⟨status, bytes, u⟩, hu, heq⟩ := Option.map_eq_some_iff.mp hget
    cases heq
    trivial

/-- A prompt source gives all that it is asked for. -/
theorem base_answers {w : List SaneByte} (hw : w.length < 2 ^ 31) (pss : SnapScanScanner)
    (fit : Nat → Prop) :
    Answers (baseSource pss).toPullSource SaneStatus.good w fit (BaseSource.At w)
      BaseSource.Prompt := by
  intro s k n h hprompt hn hle _
  have hgets : ∃ s', s.get n = some (.good, (w.drop k).take n, s') := by
    cases s with
    | scsi s =>
      obtain ⟨u, hu⟩ := @scsiLoop_full w hw (n + s.answers.length) n k s [] h hprompt
        (Nat.le_add_right _ _) hle
      exact ⟨.scsi u, Option.map_eq_some_iff.mpr ⟨_, hu, rfl⟩⟩
    | fd s =>
      obtain ⟨u, hu⟩ := @fdLoop_full w s.answers n k s [] h hprompt hle
      exact ⟨.fd u, Option.map_eq_some_iff.mpr ⟨_, hu, rfl⟩⟩
    | buf s =>
      have hat : BufSource.At w s k := h
      have hremaining := hat.remaining hw
      have hmove : min (n : Int) s.remaining = n := by omega
      have hgot : s.get n =
          some (.good, (w.drop k).take n, { s with bufPos := s.bufPos + n }) := by
        rw [BufSource.get, hmove, hat.buf, hat.pos]
        exact if_neg (by omega)
      exact ⟨.buf { s with bufPos := s.bufPos + n }, Option.map_eq_some_iff.mpr ⟨_, hgot, rfl⟩⟩
  obtain ⟨s', hget⟩ := hgets
  exact ⟨s', hget, baseGet_keeps hprompt hget⟩

/-- The base sources as they are created. -/
inductive BaseSource.Holds (pss : SnapScanScanner) (w : List SaneByte) : BaseSource → Prop
  | scsi (answers : List ReadAnswer) : Holds pss w (.scsi (SCSISource.init pss w answers))
  | fd (answers : List ReadAnswer) : Holds pss w (.fd (FDSource.init w answers))
  | buf : Holds pss w (.buf (BufSource.init w))

theorem BaseSource.Holds.at {pss : SnapScanScanner} {w : List SaneByte} {b : BaseSource}
    (h : b.Holds pss w) (hw : w.length < 2 ^ 31) : b.At w 0 := by
  cases h with
  | scsi answers => exact ⟨Nat.zero_le _, le_rfl, rfl⟩
  | fd answers =>
    refine ⟨Nat.zero_le _, ?_, rfl⟩
    show saneInt w.length = _
    rw [saneInt_of_lt (by omega) (by omega)]
    omega
  | buf => exact ⟨Nat.zero_le _, rfl, rfl⟩

/-! ### Asking the source below -/

/-- Asked for a line at the end of one, a source gives it or nothing. -/
def GivesLines {σ : Type} (psub : Source σ) (line : Nat) (subAt : σ → Nat → Prop) : Prop :=
  ∀ {s t bytes s'}, subAt s t → line ∣ t → psub.get s line = some (.good, bytes, s') →
    line ∣ bytes.length

section
variable {σ τ : Type} {psub : Source σ} {w : List SaneByte} {slack n k : Nat} {fit : Nat → Prop}
  {subAt : σ → Nat → Prop} {prompt : σ → Prop} {store : List SaneByte → τ} {t : τ} {sub : σ}
  {r : Refill (τ × σ)}

theorem askSub_cases (hask : askSub psub n store t sub = some r) :
    ∃ status bytes sub', psub.get sub n = some (status, bytes, sub') ∧
      (status ≠ .good ∧ r = .stop status (t, sub') ∨
        status = .good ∧ bytes = [] ∧ r = .stop .good (t, sub') ∨
        status = .good ∧ bytes ≠ [] ∧ r = .go (store bytes, sub')) := by
  unfold askSub at hask
  cases hget : psub.get sub n with
  | none =>
    rw [hget] at hask
    cases hask
  | some answer =>
    obtain ⟨status, bytes, sub'⟩ := answer
    refine ⟨status, bytes, sub', rfl, ?_⟩
    simp only [hget] at hask
    split_ifs at hask with hstatus hnone
    · cases hask
      exact .inl ⟨hstatus, rfl⟩
    · cases hask
      exact .inr (.inl ⟨not_not.mp hstatus, hnone, rfl⟩)
    · cases hask
      exact .inr (.inr ⟨not_not.mp hstatus, hnone, rfl⟩)

/-- Nothing has come: the transformer stays as it is. -/
theorem askSub_stop (hsub : Delivers psub.toPullSource SaneStatus.good w slack fit subAt)
    (hat : subAt sub k) (hfit : fit (k + n)) {s : τ × σ}
    (hask : askSub psub n store t sub = some (.stop .good s)) : s.1 = t ∧ subAt s.2 k := by
  obtain ⟨status, bytes, sub', hget, ⟨hbad, heq⟩ | ⟨rfl, rfl, heq⟩ | ⟨-, -, heq⟩⟩ :=
    askSub_cases hask
  · cases heq
    exact absurd rfl hbad
  · cases heq
    exact ⟨rfl, (hsub.get hat hfit hget).piece.2.2⟩
  · cases heq

/-- The bytes that come next have been stored. -/
theorem askSub_go (hsub : Delivers psub.toPullSource SaneStatus.good w slack fit subAt)
    (hat : subAt sub k) (hfit : fit (k + n)) {s : τ × σ}
    (hask : askSub psub n store t sub = some (.go s)) :
    ∃ bytes, psub.get sub n = some (.good, bytes, s.2) ∧ s.1 = store bytes ∧ bytes ≠ [] ∧
      bytes.length ≤ n ∧ bytes <+: w.drop k ∧ subAt s.2 (k + bytes.length) := by
  obtain ⟨status, bytes, sub', hget, ⟨-, heq⟩ | ⟨-, -, heq⟩ | ⟨rfl, hsome, heq⟩⟩ :=
    askSub_cases hask
  · cases heq
  · cases heq
  · cases heq
    exact ⟨bytes, hget, rfl, hsome, (hsub.get hat hfit hget).piece⟩

/-- A prompt source gives all. -/
theorem askSub_full (n : Nat) (store : List SaneByte → τ) (t : τ)
    (hanswers : Answers psub.toPullSource SaneStatus.good w fit subAt prompt)
    (hat : subAt sub k) (hprompt : prompt sub) (hn : 0 < n) (hle : k + n ≤ w.length)
    (hfit : fit (k + n)) :
    ∃ sub', askSub psub n store t sub = some (.go (store ((w.drop k).take n), sub')) ∧
      prompt sub' := by
  obtain ⟨sub', hget, hprompt'⟩ := hanswers hat hprompt hn hle hfit
  have hsome : (w.drop k).take n ≠ [] := by
    apply List.ne_nil_of_length_pos
    rwa [length_take_drop hle]
  refine ⟨sub', ?_, hprompt'⟩
  simp only [askSub, hget, ne_eq, not_true_eq_false, if_false, if_neg hsome]

end

/-- A prompt source does. -/
theorem givesLines_of_prompt {σ : Type} {psub : Source σ} {w : List SaneByte} {slack line : Nat}
    {fit : Nat → Prop} {subAt : σ → Nat → Prop} {prompt : σ → Prop} (hline : 0 < line)
    (hwhole : line ∣ w.length) (hfit : ∀ e, line ∣ e → fit e)
    (hsub : Delivers psub.toPullSource SaneStatus.good w slack fit subAt)
    (hanswers : Answers psub.toPullSource SaneStatus.good w fit subAt prompt)
    (hprompt : ∀ {s k}, subAt s k → prompt s) : GivesLines psub line subAt := by
  intro s t bytes s' hat ht hget
  have hend := hfit _ (Nat.dvd_add ht (dvd_refl line))
  rcases Nat.lt_or_ge t w.length with hmore | hall
  · have hle : t + line ≤ w.length := by
      obtain ⟨m, rfl⟩ := ht
      obtain ⟨lines, hlines⟩ := hwhole
      rw [hlines] at hmore ⊢
      rw [← Nat.mul_succ]
      exact Nat.mul_le_mul_left _ (Nat.lt_of_mul_lt_mul_left hmore)
    obtain ⟨u, hu, -⟩ := hanswers hat (hprompt hat) hline hle hend
    rw [hu] at hget
    cases hget
    rw [length_take_drop hle]
  · obtain ⟨-, hfront, -⟩ := (hsub.get hat hend hget).piece
    rw [List.drop_of_length_le hall] at hfront
    rw [List.prefix_nil.mp hfront]
    exact Nat.dvd_zero _

/-! ### The loop of the transformers -/

/-- What the parts of a transformer do, in terms of what its output is: reading data leaves
    the position as it is and makes the transformer ready, and a ready one makes the bytes
    that come next. -/
structure Transforms {σ : Type} (refill : σ → Option (Refill σ))
    (copy : σ → Nat → List SaneByte × σ) (w : List SaneByte) (fit : Nat → Prop)
    (At Ready : σ → Nat → Prop) : Prop where
  stop : ∀ {s k s'}, At s k → refill s = some (.stop .good s') → At s' k
  go : ∀ {s k s'}, At s k → refill s = some (.go s') → Ready s' k
  makes : ∀ {s k n}, Ready s k → 0 < n → fit (k + n) →
    (copy s n).1.length ≤ n ∧ (copy s n).1 <+: w.drop k ∧ At (copy s n).2 (k + (copy s n).1.length)

/-- As long as it is prompt and bytes of the output are missing, a transformer gets ready, and
    a ready one makes some. -/
structure Advances {σ : Type} (remaining : σ → Int) (refill : σ → Option (Refill σ))
    (copy : σ → Nat → List SaneByte × σ) (w : List SaneByte) (prompt : σ → Prop)
    (At Ready : σ → Nat → Prop) : Prop where
  more : ∀ {s k}, At s k → k < w.length → 0 < remaining s
  ready : ∀ {s k}, At s k → prompt s → k < w.length → ∃ s', refill s = some (.go s') ∧ prompt s'
  some : ∀ {s k n}, Ready s k → 0 < n → (copy s n).1 ≠ []
  keeps : ∀ {s n}, prompt s → prompt (copy s n).2

variable {σ : Type} {remaining : σ → Int} {refill : σ → Option (Refill σ)}
  {copy : σ → Nat → List SaneByte × σ} {w : List SaneByte} {fit : Nat → Prop} {prompt : σ → Prop}
  {At Ready : σ → Nat → Prop} {fuel n k : Nat} {s s' : σ} {out out' : List SaneByte}

theorem transformLoop_gives (h : Transforms refill copy w fit At Ready) (hs : At s k)
    (hfit : fit (k + n))
    (hloop : transformLoop remaining refill copy fuel n s out = some (.good, out', s')) :
    Gives At w n k out out' s' := by
  induction fuel generalizing n k s out with
  | zero =>
    cases hloop
    exact Gives.nil hs
  | succ fuel ih =>
    rw [transformLoop] at hloop
    split_ifs at hloop with hdone
    · cases hloop
      exact Gives.nil hs
    · cases hrefill : refill s with
      | none =>
        rw [hrefill] at hloop
        cases hloop
      | some r =>
        rw [hrefill] at hloop
        cases r with
        | stop status u =>
          cases hloop
          exact Gives.nil (h.stop hs hrefill)
        | go u =>
          have hn := Nat.pos_of_ne_zero fun hn => hdone (.inl hn)
          obtain ⟨hlen, hfront, hat'⟩ := h.makes (h.go hs hrefill) hn hfit
          have hend : k + (copy u n).1.length + (n - (copy u n).1.length) = k + n := by omega
          rw [← hend] at hfit
          exact Gives.step hlen hfront (ih hat' hfit hloop)

/-- A prompt transformer makes all the bytes that are wanted. -/
theorem transformLoop_full (h : Transforms refill copy w fit At Ready)
    (hall : Advances remaining refill copy w prompt At Ready) (hs : At s k) (hprompt : prompt s)
    (hfuel : n ≤ fuel) (hle : k + n ≤ w.length) (hfit : fit (k + n)) :
    ∃ s', transformLoop remaining refill copy fuel n s out =
      some (.good, out ++ (w.drop k).take n, s') ∧ prompt s' := by
  induction fuel generalizing n k s out with
  | zero =>
    obtain rfl : n = 0 := by omega
    exact ⟨s, by rw [transformLoop, List.take_zero, List.append_nil], hprompt⟩
  | succ fuel ih =>
    rcases Nat.eq_zero_or_pos n with rfl | hn
    · exact ⟨s, by rw [transformLoop, if_pos (.inl rfl), List.take_zero, List.append_nil], hprompt⟩
    · have hmore := hall.more hs (by omega)
      obtain ⟨u, hrefill, hu⟩ := hall.ready hs hprompt (by omega)
      have hready := h.go hs hrefill
      obtain ⟨hlen, hfront, hat⟩ := h.makes hready hn hfit
      have hsome := List.length_pos_iff.mpr (hall.some hready hn)
      have hend : k + (copy u n).1.length + (n - (copy u n).1.length) = k + n := by omega
      rw [← hend] at hfit
      obtain ⟨s', hloop, hs'⟩ := @ih (n - (copy u n).1.length) _ _ (out ++ (copy u n).1) hat
        (hall.keeps hu) (by omega) (by omega) hfit
      rw [List.append_assoc, append_take_drop hfront hlen] at hloop
      refine ⟨s', ?_, hs'⟩
      rw [transformLoop, if_neg (not_or.mpr ⟨hn.ne', by omega⟩), hrefill]
      exact hloop

/-- What a transformer gives in a run, whatever it says about what remains. -/
theorem transform_gets {S : PullSource σ SaneStatus SaneByte} {s₀ : σ} {ns : List Nat}
    (h : Transforms refill copy w (fun _ => True) At Ready)
    (hget : ∀ s n, S.get s n = transformLoop remaining refill copy n n s [])
    (h₀ : At s₀ 0) (hrun : Gets S SaneStatus.good s₀ ns (s, out)) :
    out <+: w ∧ At s out.length := by
  refine at_of_gets ?_ h₀ (gets_fitting hrun fun _ => trivial)
  intro s k n xs s' hat _ hgot
  rw [hget] at hgot
  exact transformLoop_gives h hat trivial hgot

end SaneBackends
