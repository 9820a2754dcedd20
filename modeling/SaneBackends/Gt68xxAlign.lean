import SaneBackends.Gt68xxUnpack
import SaneBackends.DelaySlots

/-!
# What the line readers of the GT68xx backend return

A line that is returned is made of the raw lines in which the sensor lines have seen the same
line of the paper.  Only the readers for lines in the order red, green, blue take the even or
the odd columns from a later line; with the other ones a double CCD stays uncorrected.
-/

namespace SaneBackends.Gt68xx

open CountLoops FaultState DelaySlots

namespace ScanParameters

/-- The lines by which a channel is delayed. -/
def delay (p : ScanParameters) (c : Channel) : Nat := p.ldShift c + p.ldShiftDouble

/-- The number of lines at the start that do not have all channels. -/
def maxDelay (p : ScanParameters) : Nat := max (p.delay .r) (max (p.delay .g) (p.delay .b))

/-- Column `i` belongs to the second line of a double CCD. -/
def InDouble (p : ScanParameters) (i : Nat) : Prop :=
  p.doubleColumn ≤ i ∧ (i - p.doubleColumn) % 2 = 0

instance (p : ScanParameters) (i : Nat) : Decidable (p.InDouble i) :=
  inferInstanceAs (Decidable (_ ∧ _))

/-- The lines by which the reader takes column `i` later. -/
def later (p : ScanParameters) (i : Nat) : Nat :=
  if p.doubles = true ∧ p.InDouble i then p.ldShiftDouble else 0

theorem delay_le_max (p : ScanParameters) (c : Channel) : p.delay c ≤ p.maxDelay := by
  unfold maxDelay
  cases c <;> omega

end ScanParameters

/-! ### One line -/

/-- `n` raw lines have been read, and the last ones are in the buffer of channel `c`. -/
structure Delayed (p : ScanParameters) (raw : Nat → List SaneByte) (c : Channel) (n : Nat)
    (d : DelayBuffer) : Prop where
  wide : Wide p.scanXs d
  length : d.lines.length = p.delay c + 1
  read : d.readIndex = n % (p.delay c + 1)
  write : d.writeIndex = place (p.delay c) n
  recent : Recent (fun k row => Fills row (p.sample (raw k) c) p.pixelXs) d.lines (p.delay c)
    (n - p.delay c) n

section
variable {p : ScanParameters} {raw : Nat → List SaneByte} {c : Channel} {n k : Nat}
  {d d' : DelayBuffer}

/-- A line with room for the pixels has been put in the place of another one. -/
theorem Wide.setLine {width i : Nat} {row : List Nat} (h : Wide width d)
    (hline : row.length = width) : Wide width (d.setLine i row) := by
  refine ⟨h.count.trans List.length_set.symm, ?_, ?_, ?_⟩
  · exact h.read.trans_eq List.length_set.symm
  · exact h.write.trans_eq List.length_set.symm
  · intro row' hline'
    rcases List.mem_or_eq_of_mem_set hline' with hold | rfl
    · exact h.wide row' hold
    · exact hline

/-- The raw line `n` is in the buffer as well. -/
structure Loaded (p : ScanParameters) (raw : Nat → List SaneByte) (c : Channel) (n : Nat)
    (d : DelayBuffer) : Prop where
  wide : Wide p.scanXs d
  length : d.lines.length = p.delay c + 1
  read : d.readIndex = n % (p.delay c + 1)
  write : d.writeIndex = place (p.delay c) n
  recent : Recent (fun k row => Fills row (p.sample (raw k) c) p.pixelXs) d.lines (p.delay c)
    (n - p.delay c) (n + 1)

theorem Delayed.load (h : Delayed p raw c n d)
    (hwritten : Written p.scanXs p.pixelXs (p.sample (raw n) c) d d') : Loaded p raw c n d' := by
  obtain ⟨row, rfl, hlen, hfills⟩ := hwritten
  refine ⟨h.wide.setLine hlen, List.length_set.trans h.length, h.read, h.write, ?_⟩
  show Recent _ (d.lines.set d.writeIndex row) _ _ _
  rw [h.write]
  exact h.recent.store h.length hfills (by omega)

/-- The lines that `DELAY_BUFFER_STEP` leaves are those of the turns behind it. -/
theorem Loaded.step (h : Loaded p raw c n d) : Delayed p raw c (n + 1) d.step := by
  have hcount : d.lineCount = p.delay c + 1 := h.wide.count.trans h.length
  have hpos : 0 < d.lines.length := by
    rw [h.length]
    exact Nat.succ_pos _
  refine ⟨⟨h.wide.count, ?_, ?_, h.wide.wide⟩, h.length, ?_, ?_, h.recent.mono (by omega)⟩
  · show (d.readIndex + 1) % d.lineCount < d.lines.length
    rw [h.wide.count]
    exact Nat.mod_lt _ hpos
  · show (d.writeIndex + 1) % d.lineCount < d.lines.length
    rw [h.wide.count]
    exact Nat.mod_lt _ hpos
  · show (d.readIndex + 1) % d.lineCount = _
    rw [h.read, hcount, Nat.mod_add_mod]
  · show (d.writeIndex + 1) % d.lineCount = _
    rw [h.write, hcount, place, Nat.mod_add_mod, place]
    congr 1
    omega

/-- The line that is read, once there is one. -/
theorem Loaded.readLine (h : Loaded p raw c n d) : ∃ row, d.readLine = .ok row ∧
    row.length = p.scanXs ∧
    (p.delay c ≤ n → Fills row (p.sample (raw (n - p.delay c)) c) p.pixelXs) := by
  obtain ⟨row, hline, hlen⟩ := h.wide.lineAt h.wide.read
  refine ⟨row, hline, hlen, ?_⟩
  intro hn
  obtain ⟨row', hline', hfills⟩ := h.recent (n - p.delay c) le_rfl (by omega)
  rw [place_read hn, ← h.read, ← cellAt_eq_ok, hline] at hline'
  cases hline'
  exact hfills

/-- The line that the columns are taken from. -/
theorem Loaded.selectLine (h : Loaded p raw c n d) : ∃ row,
    d.selectLine p.ldShiftDouble = .ok row ∧ row.length = p.scanXs ∧
    (p.delay c ≤ n →
      Fills row (p.sample (raw (n - p.delay c + p.ldShiftDouble)) c) p.pixelXs) := by
  have hcount : d.lineCount = p.delay c + 1 := h.wide.count.trans h.length
  have hlt : (d.readIndex + p.ldShiftDouble) % d.lineCount < d.lines.length := by
    rw [h.wide.count]
    exact Nat.mod_lt _ (by rw [h.length]; exact Nat.succ_pos _)
  obtain ⟨row, hline, hlen⟩ := h.wide.lineAt hlt
  refine ⟨row, hline, hlen, ?_⟩
  intro hn
  have hle : p.ldShiftDouble ≤ p.delay c := Nat.le_add_left _ _
  obtain ⟨row', hline', hfills⟩ :=
    h.recent (n - p.delay c + p.ldShiftDouble) (by omega) (by omega)
  rw [place_ahead hn, ← h.read, ← hcount, ← cellAt_eq_ok, hline] at hline'
  cases hline'
  exact hfills

/-- Changing the line that is read leaves what is kept. -/
theorem Loaded.spoil {row : List Nat} (h : Loaded p raw c n d) (hline : row.length = p.scanXs) :
    Delayed p raw c (n + 1) (d.setLine d.readIndex row).step := by
  have hcount : d.lineCount = p.delay c + 1 := h.wide.count.trans h.length
  have hwide := h.wide.setLine (i := d.readIndex) hline
  have hrecent : Recent (fun k row => Fills row (p.sample (raw k) c) p.pixelXs)
      (d.setLine d.readIndex row).lines (p.delay c) (n + 1 - p.delay c) (n + 1) := by
    apply (h.recent.mono (by omega)).set_other
    intro k hlo hhi
    rw [h.read]
    exact place_ne_read (by omega) (by omega)
  have hstep := h.step
  exact ⟨⟨hstep.wide.count.trans List.length_set.symm,
      hstep.wide.read.trans_eq List.length_set.symm,
      hstep.wide.write.trans_eq List.length_set.symm, hwide.wide⟩,
    List.length_set.trans hstep.length, hstep.read, hstep.write, hrecent⟩

/-! ### Columns of a later line -/

/-- The line at the read pointer after the first `k` columns have been taken from `sel`. -/
structure Patched (p : ScanParameters) (old sel : List Nat) (k : Nat) (d d' : DelayBuffer) :
    Prop where
  row : ∃ row, d' = d.setLine d.readIndex row ∧ row.length = old.length ∧
    ∀ i, row[i]? =
      if p.InDouble i ∧ (i - p.doubleColumn) / 2 < k then sel[i]? else old[i]?

theorem patched_zero {old sel : List Nat} (hold : d.readLine = .ok old) :
    Patched p old sel 0 d d := by
  refine ⟨old, ?_, rfl, ?_⟩
  · have hget := cellAt_eq_ok.mp hold
    obtain ⟨hlt, heq⟩ := List.getElem?_eq_some_iff.mp hget
    rw [DelayBuffer.setLine, ← heq, List.set_getElem_self]
  · intro i
    rw [if_neg]
    rintro ⟨-, hlt⟩
    exact absurd hlt (Nat.not_lt_zero _)

theorem Patched.column {old sel : List Nat} (h : Patched p old sel k d d')
    (hread : d.readIndex < d.lines.length)
    (hother : (d.readIndex + p.ldShiftDouble) % d.lineCount ≠ d.readIndex)
    (hsel : d.selectLine p.ldShiftDouble = .ok sel)
    (hcol : p.doubleColumn + 2 * k < old.length) (hcol' : p.doubleColumn + 2 * k < sel.length) :
    ∃ d'', patchColumn p.ldShiftDouble (p.doubleColumn + 2 * k) d' = .ok d'' ∧
      Patched p old sel (k + 1) d d'' := by
  obtain ⟨row, rfl, hlen, hcells⟩ := h.row
  have hsel' : (d.setLine d.readIndex row).selectLine p.ldShiftDouble = .ok sel := by
    apply cellAt_eq_ok.mpr
    show (d.lines.set d.readIndex row)[(d.readIndex + p.ldShiftDouble) % d.lineCount]? = some sel
    rw [List.getElem?_set_ne hother.symm]
    exact cellAt_eq_ok.mp hsel
  have hline : (d.setLine d.readIndex row).readLine = .ok row := by
    apply cellAt_eq_ok.mpr
    exact List.getElem?_set_self hread
  refine ⟨d.setLine d.readIndex (row.set (p.doubleColumn + 2 * k) sel[p.doubleColumn + 2 * k]),
    ?_, ⟨_, rfl, List.length_set.trans hlen, ?_⟩⟩
  · unfold patchColumn
    rw [hsel']
    show (cellAt sel (p.doubleColumn + 2 * k) >>= _) = _
    rw [cellAt_of_lt hcol']
    show ((d.setLine d.readIndex row).readLine >>= _) = _
    rw [hline]
    show (setCell row (p.doubleColumn + 2 * k) sel[p.doubleColumn + 2 * k] >>= _) = _
    rw [setCell_of_lt (by omega)]
    show Except.ok _ = _
    rw [DelayBuffer.setLine, DelayBuffer.setLine, List.set_set]
    rfl
  · intro i
    by_cases hi : i = p.doubleColumn + 2 * k
    · rw [hi, List.getElem?_set_self (by omega), if_pos, List.getElem?_eq_getElem hcol']
      refine ⟨⟨by omega, by omega⟩, by omega⟩
    · rw [List.getElem?_set_ne (Ne.symm hi), hcells i]
      have hiff : p.InDouble i ∧ (i - p.doubleColumn) / 2 < k ↔
          p.InDouble i ∧ (i - p.doubleColumn) / 2 < k + 1 := by
        unfold ScanParameters.InDouble
        omega
      simp only [hiff]

/-- The loop over the columns. -/
theorem patchColumns_ok {delay : Delays} {old sel : Channel → List Nat}
    (hread : ∀ c, (delay c).readIndex < (delay c).lines.length)
    (hother : ∀ c,
      ((delay c).readIndex + p.ldShiftDouble) % (delay c).lineCount ≠ (delay c).readIndex)
    (hold : ∀ c, (delay c).readLine = .ok (old c))
    (hsel : ∀ c, (delay c).selectLine p.ldShiftDouble = .ok (sel c))
    (hwide : ∀ c, p.pixelXs ≤ (old c).length ∧ p.pixelXs ≤ (sel c).length) :
    ∃ delay', patchColumns p delay = .ok delay' ∧
      ∀ c, Patched p (old c) (sel c) ((p.pixelXs - p.doubleColumn + 1) / 2) (delay c)
        (delay' c) := by
  apply turns_ok
    (I := fun k (delay' : Delays) => ∀ c, Patched p (old c) (sel c) k (delay c) (delay' c))
  · exact fun c => patched_zero (hold c)
  · intro k hk delay' h
    have hnodup : [Channel.r, .g, .b].Nodup := by decide
    apply forChannels_ok
      (Q := fun c d' => Patched p (old c) (sel c) (k + 1) (delay c) d') hnodup
    · intro c _
      obtain ⟨hwold, hwsel⟩ := hwide c
      exact (h c).column (hread c) (hother c) (hsel c) (by omega) (by omega)
    · intro c hc
      cases c <;> exact absurd (by decide) hc

/-! ### A turn and a run -/

/-- What a reader returns for raw line `n`, and what it leaves. -/
def Turned (p : ScanParameters) (raw : Nat → List SaneByte) (n : Nat) (delay : Delays)
    (out : Returned) : Prop :=
  ∀ c, Delayed p raw c (n + 1) (delay c) ∧
    (p.delay c ≤ n →
      Fills (out c) (fun i => p.sample (raw (n - p.delay c + p.later i)) c i) p.pixelXs)

/-- The last statements of a reader. -/
theorem returned_ok {delay : Delays} {lines : Channel → List Nat} {params : ScanParameters}
    (hlines : ∀ c, (delay c).readLine = .ok (lines c)) : ∃ out, (do
      let r ← (delay .r).readLine
      let g ← (delay .g).readLine
      let b ← (delay .b).readLine
      Except.ok (⟨params, fun c => (delay c).step⟩, fun c =>
        match c with
        | .r => r
        | .g => g
        | .b => b) : Except Fault (LineReader × Returned)) =
      .ok (⟨params, fun c => (delay c).step⟩, out) ∧ ∀ c, out c = lines c := by
  refine ⟨lines, ?_, fun c => rfl⟩
  rw [hlines, hlines, hlines]
  show Except.ok _ = Except.ok _
  congr 2
  funext c
  cases c <;> rfl

theorem lineRead_ok {unpack : Delays → Except Fault Delays} {delay loaded final : Delays}
    {lines : Channel → List Nat} {double : Bool} (hrun : unpack delay = .ok loaded)
    (hfinal : (if double = true then patchColumns p loaded else .ok loaded) = .ok final)
    (hlines : ∀ c, (final c).readLine = .ok (lines c)) :
    ∃ out, lineRead unpack double ⟨p, delay⟩ = .ok (⟨p, fun c => (final c).step⟩, out) ∧
      ∀ c, out c = lines c := by
  obtain ⟨out, hout, heq⟩ := @returned_ok final lines p hlines
  refine ⟨out, ?_, heq⟩
  unfold lineRead
  rw [hrun]
  cases double with
  | false =>
    rw [if_neg (by decide)] at hfinal
    cases hfinal
    exact hout
  | true =>
    rw [if_pos rfl] at hfinal
    show (patchColumns p loaded >>= _) = _
    rw [hfinal]
    exact hout

theorem lineRead_spec {unpack : Delays → Except Fault Delays} {delay : Delays}
    (hsup : p.Supported) (h : ∀ c, Delayed p raw c n (delay c))
    (hunpack : ∃ delay', unpack delay = .ok delay' ∧
      ∀ c, Written p.scanXs p.pixelXs (p.sample (raw n) c) (delay c) (delay' c)) :
    ∃ delay' out, lineRead unpack p.doubles ⟨p, delay⟩ = .ok (⟨p, delay'⟩, out) ∧
      Turned p raw n delay' out := by
  obtain ⟨hxs, -⟩ := p.scanXs_spec hsup
  obtain ⟨loaded, hrun, hwritten⟩ := hunpack
  have hloaded := fun c => (h c).load (hwritten c)
  choose old hold hwold hfold using fun c => (hloaded c).readLine
  choose sel hsel hwsel hfsel using fun c => (hloaded c).selectLine
  cases hdouble : p.doubles with
  | false =>
    obtain ⟨out, hout, heq⟩ := lineRead_ok hrun (if_neg Bool.false_ne_true) hold
    refine ⟨_, out, hout, ?_⟩
    intro c
    refine ⟨(hloaded c).step, ?_⟩
    intro hn i hi
    have hlater : p.later i = 0 := if_neg (by rw [hdouble]; simp)
    rw [heq]
    beta_reduce
    rw [hlater]
    exact hfold c hn i hi
  | true =>
    have hldd : 0 < p.ldShiftDouble := by
      unfold ScanParameters.doubles at hdouble
      simp only [Bool.and_eq_true, decide_eq_true_eq] at hdouble
      exact hdouble.2
    have hother : ∀ c,
        ((loaded c).readIndex + p.ldShiftDouble) % (loaded c).lineCount ≠ (loaded c).readIndex := by
      intro c
      have hle : p.ldShiftDouble ≤ p.delay c := Nat.le_add_left _ _
      have hlt := (hloaded c).wide.read
      rw [(hloaded c).wide.count]
      have hlen := (hloaded c).length
      have hne := (mod_ne (j := (loaded c).readIndex) (k := (loaded c).readIndex + p.ldShiftDouble)
        (m := (loaded c).lines.length) (by omega) (by omega)).symm
      rwa [Nat.mod_eq_of_lt hlt] at hne
    obtain ⟨patched, hpatch, hpatched⟩ := patchColumns_ok (p := p)
      (fun c => (hloaded c).wide.read) hother hold hsel
      (fun c => ⟨hxs.trans_eq (hwold c).symm, hxs.trans_eq (hwsel c).symm⟩)
    choose row heq hlen hcells using fun c => (hpatched c).row
    have hlines : ∀ c, (patched c).readLine = .ok (row c) := by
      intro c
      rw [heq c]
      exact cellAt_eq_ok.mpr (List.getElem?_set_self (hloaded c).wide.read)
    obtain ⟨out, hout, hsame⟩ := lineRead_ok hrun ((if_pos rfl).trans hpatch) hlines
    refine ⟨_, out, hout, ?_⟩
    intro c
    constructor
    · show Delayed p raw c (n + 1) (patched c).step
      rw [heq c]
      exact (hloaded c).spoil ((hlen c).trans (hwold c))
    · intro hn i hi
      rw [hsame, hcells c i]
      beta_reduce
      by_cases hin : p.InDouble i
      · have hlater : p.later i = p.ldShiftDouble := if_pos ⟨hdouble, hin⟩
        have hturn : (i - p.doubleColumn) / 2 < (p.pixelXs - p.doubleColumn + 1) / 2 := by
          have hcol := hin.1
          have heven := hin.2
          omega
        rw [if_pos ⟨hin, hturn⟩, hlater]
        exact hfsel c hn i hi
      · have hlater : p.later i = 0 := if_neg (fun hboth => hin hboth.2)
        rw [if_neg (fun hboth => hin hboth.1), hlater]
        exact hfold c hn i hi

theorem readLines_spec {read : Read} {unpack : List SaneByte → Delays → Except Fault Delays}
    {delay : Delays} {raws : List (List SaneByte)} (hsup : p.Supported)
    (hunpacks : p.Unpacks unpack)
    (hread : ∀ delay raw, read ⟨p, delay⟩ raw = lineRead (unpack raw) p.doubles ⟨p, delay⟩)
    (h : ∀ c, Delayed p raw c n (delay c))
    (hraws : ∀ k, (hk : k < raws.length) → raws[k] = raw (n + k) ∧ raws[k].length = p.rawSize) :
    ∃ outs, readLines read ⟨p, delay⟩ raws = .ok outs ∧ outs.length = raws.length ∧
      ∀ k < raws.length, ∃ row, outs[k]? = some row ∧ ∀ c, p.delay c ≤ n + k →
        Fills (row c) (fun i => p.sample (raw (n + k - p.delay c + p.later i)) c i) p.pixelXs := by
  induction raws generalizing n delay with
  | nil => exact ⟨[], rfl, rfl, fun k hk => absurd hk (Nat.not_lt_zero k)⟩
  | cons first raws ih =>
    obtain ⟨hfirst, hsize⟩ := hraws 0 (Nat.succ_pos _)
    rw [List.getElem_cons_zero, Nat.add_zero] at hfirst
    rw [List.getElem_cons_zero] at hsize
    have hone := hunpacks.ok hsize (fun c => (h c).wide)
    rw [hfirst] at hone
    obtain ⟨delay', out, hrun, hturned⟩ := lineRead_spec hsup h hone
    obtain ⟨outs, houts, hlen, hlines⟩ := @ih (n + 1) delay' (fun c => (hturned c).1) (by
      intro k hk
      have hnext := hraws (k + 1) (Nat.succ_lt_succ hk)
      rw [List.getElem_cons_succ] at hnext
      rwa [Nat.add_assoc, Nat.add_comm 1 k])
    refine ⟨out :: outs, ?_, by rw [List.length_cons, hlen, List.length_cons], ?_⟩
    · rw [readLines, hread, hfirst, hrun]
      show (readLines read ⟨p, delay'⟩ raws >>= _) = _
      rw [houts]
      rfl
    · intro k hk
      cases k with
      | zero => exact ⟨out, rfl, fun c hn => (hturned c).2 hn⟩
      | succ k =>
        obtain ⟨row, hline, hfills⟩ := hlines k (Nat.lt_of_succ_lt_succ hk)
        refine ⟨row, hline, ?_⟩
        intro c hn
        have hfills := hfills c (by omega)
        rwa [Nat.add_assoc, Nat.add_comm 1 k] at hfills

/-! ### New readers -/

theorem delayBufferInit_eq {width count : Nat} (hwidth : 0 < width) :
    delayBufferInit width count =
      if 4 * width * (count + 1) < 2 ^ 31 then
        .ok (.ok ⟨count + 1, 0, count, freshLines width (count + 1)⟩)
      else .error .outOfBounds := by
  have hbytes : ((width : Int) * 4) = ((width * 4 : Nat) : Int) := (Nat.cast_mul width 4).symm
  have hcount : ((count : Int) + 1) = ((count + 1 : Nat) : Int) := (Nat.cast_succ count).symm
  have hsize : ((width * 4 : Nat) : Int) * ((count + 1 : Nat) : Int) =
      ((4 * width * (count + 1) : Nat) : Int) := by
    rw [← Nat.cast_mul, Nat.mul_comm width 4]
  have hle1 : width * 4 ≤ 4 * width * (count + 1) := by
    rw [Nat.mul_comm width 4]
    exact Nat.le_mul_of_pos_right _ (Nat.succ_pos count)
  have hle2 : count + 1 ≤ 4 * width * (count + 1) :=
    Nat.le_mul_of_pos_left _ (by omega)
  unfold delayBufferInit
  rw [if_neg (by omega), if_neg (by omega), hbytes, hcount]
  by_cases hfit : 4 * width * (count + 1) < 2 ^ 31
  · rw [if_pos hfit, intValue_natCast, if_pos (by omega), ok_bind, intValue_natCast,
      if_pos (by omega), ok_bind, hsize, intValue_natCast, if_pos hfit]
    rfl
  · rw [if_neg hfit, intValue_natCast]
    by_cases hbytes' : width * 4 < 2 ^ 31
    · rw [if_pos hbytes', ok_bind, intValue_natCast]
      by_cases hcount' : count + 1 < 2 ^ 31
      · rw [if_pos hcount', ok_bind, hsize, intValue_natCast, if_neg hfit]
        rfl
      · rw [if_neg hcount']
        rfl
    · rw [if_neg hbytes']
      rfl

namespace ScanParameters

/-- The sizes of the delay buffers, and in line mode that of a raw line, are `int`s. -/
structure Fits (p : ScanParameters) : Prop where
  buffers : ∀ c, 4 * p.scanXs * (p.delay c + 1) < 2 ^ 31
  raw : p.lineMode = true → p.scanBpl * 3 < 2 ^ 31

/-- A delay buffer that nothing has been put into. -/
def freshBuffer (p : ScanParameters) (c : Channel) : DelayBuffer :=
  ⟨p.delay c + 1, 0, p.delay c, freshLines p.scanXs (p.delay c + 1)⟩

theorem freshBuffer_delayed : Delayed p raw c 0 (p.freshBuffer c) := by
  have hlen : (freshLines p.scanXs (p.delay c + 1)).length = p.delay c + 1 := by
    rw [freshLines, List.length_map, List.length_range]
  refine ⟨⟨hlen.symm, ?_, ?_, ?_⟩, hlen, (Nat.zero_mod _).symm, ?_, recent_empty (Nat.zero_le _)⟩
  · exact (Nat.succ_pos _).trans_eq hlen.symm
  · exact (Nat.lt_succ_self _).trans_eq hlen.symm
  · intro row hline
    obtain ⟨i, -, rfl⟩ := List.mem_map.mp hline
    rw [List.length_map, List.length_range]
  · show p.delay c = (0 + p.delay c) % (p.delay c + 1)
    rw [Nat.zero_add, Nat.mod_eq_of_lt (Nat.lt_succ_self _)]

theorem initDelay_eq (hpos : 0 < p.scanXs) :
    p.initDelay c = if 4 * p.scanXs * (p.delay c + 1) < 2 ^ 31 then .ok (.ok (p.freshBuffer c))
      else .error .outOfBounds := by
  have hle : p.delay c + 1 ≤ 4 * p.scanXs * (p.delay c + 1) :=
    Nat.le_mul_of_pos_left _ (by omega)
  have hinit := @delayBufferInit_eq p.scanXs (p.delay c) hpos
  unfold initDelay
  rw [intValue_natCast]
  by_cases hdelay : p.ldShift c + p.ldShiftDouble < 2 ^ 31
  · rw [if_pos hdelay, ok_bind]
    exact hinit
  · have hbig : ¬ 4 * p.scanXs * (p.delay c + 1) < 2 ^ 31 := by
      unfold delay at hle ⊢
      omega
    rw [if_neg hdelay, if_neg hbig]
    rfl

theorem lineReaderNew_ok (hpos : 0 < p.scanXs)
    (hfits : ∀ c, 4 * p.scanXs * (p.delay c + 1) < 2 ^ 31) {read : Read}
    (hread : p.read = some read) : ∃ delay, lineReaderNew p = .ok (.ok (⟨p, delay⟩, read)) ∧
      ∀ c, delay c = p.freshBuffer c := by
  have hinit : ∀ c, p.initDelay c = .ok (.ok (p.freshBuffer c)) :=
    fun c => (initDelay_eq hpos).trans (if_pos (hfits c))
  unfold lineReaderNew
  rw [hinit, hinit, hinit]
  simp only [ok_bind, hread]
  refine ⟨_, rfl, ?_⟩
  intro c
  cases c <;> rfl

theorem lineReaderNew_error (hpos : 0 < p.scanXs)
    (hfits : ¬ ∀ c, 4 * p.scanXs * (p.delay c + 1) < 2 ^ 31) :
    lineReaderNew p = .error .outOfBounds := by
  unfold lineReaderNew
  rw [initDelay_eq hpos, initDelay_eq hpos, initDelay_eq hpos]
  by_cases hr : 4 * p.scanXs * (p.delay .r + 1) < 2 ^ 31
  · rw [if_pos hr, ok_bind]
    by_cases hg : 4 * p.scanXs * (p.delay .g + 1) < 2 ^ 31
    · rw [if_pos hg]
      have hb : ¬ 4 * p.scanXs * (p.delay .b + 1) < 2 ^ 31 := by
        intro hb
        apply hfits
        intro c
        cases c with
        | r => exact hr
        | g => exact hg
        | b => exact hb
      rw [if_neg hb]
      rfl
    · rw [if_neg hg]
      rfl
  · rw [if_neg hr]
    rfl

theorem scanXs_pos (hsup : p.Supported) (hpos : 0 < p.pixelXs) : 0 < p.scanXs :=
  hpos.trans_le (p.scanXs_spec hsup).1

/-- What is returned for each raw line. -/
theorem scanLines_spec (hsup : p.Supported) (hpos : 0 < p.pixelXs) (hfits : p.Fits)
    {raws : List (List SaneByte)} (hraws : ∀ raw ∈ raws, raw.length = p.rawSize) :
    ∃ outs, scanLines p raws = .ok (.ok outs) ∧ outs.length = raws.length ∧
      ∀ n < raws.length, ∃ row, outs[n]? = some row ∧ ∀ c, p.delay c ≤ n →
        Fills (row c) (fun i => p.sample (raws.getD (n - p.delay c + p.later i) []) c i)
          p.pixelXs := by
  obtain ⟨read, unpack, hread, hunpacks, hspec⟩ := p.read_spec hsup
  obtain ⟨delay, hnew, hdelay⟩ := lineReaderNew_ok (p.scanXs_pos hsup hpos) hfits.buffers hread
  have hplain : ∀ delay raw, read ⟨p, delay⟩ raw = lineRead (unpack raw) p.doubles ⟨p, delay⟩ := by
    intro delay raw
    rw [hspec]
    by_cases hmode : p.lineMode = true
    · rw [if_pos hmode, intValue_natCast, if_pos (hfits.raw hmode), ok_bind]
    · rw [if_neg hmode, ok_bind]
  obtain ⟨outs, houts, hlen, hlines⟩ := @readLines_spec p (fun k => raws.getD k []) 0 read unpack
    delay raws hsup hunpacks hplain
    (by
      intro c
      rw [hdelay c]
      exact freshBuffer_delayed)
    (by
      intro k hk
      refine ⟨?_, hraws _ (List.getElem_mem hk)⟩
      rw [Nat.zero_add, List.getD_eq_getElem _ _ hk])
  refine ⟨outs, ?_, hlen, ?_⟩
  · unfold scanLines
    rw [hnew]
    simp only [ok_bind, houts]
  · intro n hn
    obtain ⟨row, hline, hfills⟩ := hlines n hn
    refine ⟨row, hline, ?_⟩
    intro c hc
    have hfills := hfills c (by omega)
    rwa [Nat.zero_add] at hfills

/-- Sizes that do not fit. -/
theorem scanLines_error (hsup : p.Supported) (hpos : 0 < p.pixelXs) (hfits : ¬ p.Fits) :
    scanLines p [List.replicate p.rawSize 0] = .error .outOfBounds := by
  have hxs := p.scanXs_pos hsup hpos
  unfold scanLines
  by_cases hbuffers : ∀ c, 4 * p.scanXs * (p.delay c + 1) < 2 ^ 31
  · obtain ⟨read, unpack, hread, -, hspec⟩ := p.read_spec hsup
    obtain ⟨delay, hnew, -⟩ := lineReaderNew_ok hxs hbuffers hread
    have hraw : ¬ (p.lineMode = true → p.scanBpl * 3 < 2 ^ 31) :=
      fun hraw => hfits ⟨hbuffers, hraw⟩
    rw [Classical.not_imp] at hraw
    rw [hnew]
    simp only [ok_bind, readLines, hspec, if_pos hraw.1, intValue_natCast, if_neg hraw.2,
      error_bind]
  · rw [lineReaderNew_error hxs hbuffers]
    rfl

/-! ### Alignment -/

/-- For raw lines of the right size the lines behind the first ones have all channels, and for a
    double CCD all columns, from raw lines that have seen the same line of the paper. -/
def Aligned (p : ScanParameters) : Prop :=
  ∀ raws : List (List SaneByte), (∀ raw ∈ raws, raw.length = p.rawSize) →
    ∃ outs, scanLines p raws = .ok (.ok outs) ∧ outs.length = raws.length ∧
      ∀ n, p.maxDelay + n < raws.length → ∃ row, outs[p.maxDelay + n]? = some row ∧
        ∀ c, ∀ i < p.pixelXs, (row c)[i]? = some (p.sample
          (raws.getD
            (n + (p.maxDelay - p.delay c) + if p.InDouble i then p.ldShiftDouble else 0) []) c i)

/-- The same scan with another layout of the raw lines. -/
structure Sibling (p q : ScanParameters) : Prop where
  pixelXs : q.pixelXs = p.pixelXs
  ldShift : q.ldShift = p.ldShift
  ldShiftDouble : q.ldShiftDouble = p.ldShiftDouble
  doubleColumn : q.doubleColumn = p.doubleColumn

/-- From raw lines with the same samples two readers return the same lines, behind the first
    ones. -/
def SameLines (p q : ScanParameters) : Prop :=
  ∀ raws raws' : List (List SaneByte), (∀ raw ∈ raws, raw.length = p.rawSize) →
    (∀ raw ∈ raws', raw.length = q.rawSize) → raws.length = raws'.length →
    (∀ k c, ∀ i < p.pixelXs, p.sample (raws.getD k []) c i = q.sample (raws'.getD k []) c i) →
    ∃ outs outs', scanLines p raws = .ok (.ok outs) ∧ scanLines q raws' = .ok (.ok outs') ∧
      ∀ n, p.maxDelay ≤ n → n < raws.length → ∃ row row', outs[n]? = some row ∧
        outs'[n]? = some row' ∧ ∀ c, ∀ i < p.pixelXs, (row c)[i]? = (row' c)[i]?

/-- No column is left where another line of the CCD has seen it. -/
def Corrected (p : ScanParameters) : Prop :=
  p.ldShiftDouble = 0 ∨ p.lineMode = true ∧ p.order = .rgb ∨ p.pixelXs ≤ p.doubleColumn

theorem doubles_iff : p.doubles = true ↔
    (p.lineMode = true ∧ p.order = .rgb) ∧ 0 < p.ldShiftDouble := by
  unfold doubles
  simp only [Bool.and_eq_true, decide_eq_true_eq]

theorem Corrected.later_eq (h : p.Corrected) {i : Nat} (hi : i < p.pixelXs) :
    p.later i = if p.InDouble i then p.ldShiftDouble else 0 := by
  unfold later
  by_cases hin : p.InDouble i
  · rw [if_pos hin]
    by_cases hdouble : p.doubles = true
    · exact if_pos ⟨hdouble, hin⟩
    · rw [if_neg fun hboth => hdouble hboth.1]
      have hcol := hin.1
      rcases h with h | h | h
      · exact h.symm
      · by_contra hne
        exact hdouble ((doubles_iff).mpr ⟨h, by omega⟩)
      · omega
  · rw [if_neg hin, if_neg fun hboth => hin hboth.2]

/-! ### A raw line of its own -/

/-- A stream of `m + 1` raw lines of zeros, with bytes `0xff` in line `t`. -/
def flash (p : ScanParameters) (m t : Nat) : List (List SaneByte) :=
  (List.range (m + 1)).map fun k => List.replicate p.rawSize (if k = t then 0xff else 0)

theorem length_flash {m t : Nat} : (p.flash m t).length = m + 1 := by
  rw [flash, List.length_map, List.length_range]

theorem flash_size {m t : Nat} : ∀ raw ∈ p.flash m t, raw.length = p.rawSize := by
  intro raw hraw
  obtain ⟨k, -, rfl⟩ := List.mem_map.mp hraw
  exact List.length_replicate

/-- The bytes of a raw line are all the same. -/
theorem component_zero {raw : List SaneByte} {depth base j : Nat}
    (h : ∀ i, raw.getD i 0 = 0) : component depth raw base j = 0 := by
  have hbyte : ∀ i, (raw.getD i 0).toNat = 0 := by
    intro i
    rw [h]
    rfl
  unfold component
  dsimp only
  split_ifs
  · rw [hbyte]
  · rw [hbyte, hbyte]
    rfl
  · rw [hbyte, hbyte]
    rfl
  · rw [hbyte, hbyte]

theorem getD_replicate {m i : Nat} {x : SaneByte} (h : i < m) :
    (List.replicate m x).getD i 0 = x := by
  rw [List.getD_eq_getElem _ _ (by rwa [List.length_replicate]), List.getElem_replicate]

theorem component_ones {m depth base j : Nat} (hdepth : depth = 8 ∨ depth = 12 ∨ depth = 16)
    (h8 : depth = 8 → base + j < m) (h12 : depth = 12 → base + 3 * (j / 2) + 2 < m)
    (h16 : depth = 16 → base + 2 * j + 1 < m) :
    component depth (List.replicate m 0xff) base j = 65535 := by
  unfold component
  rcases hdepth with hdepth | hdepth | hdepth
  · rw [if_pos hdepth]
    simp only [getD_replicate (h8 hdepth)]
    rfl
  · have hlt := h12 hdepth
    rw [if_neg (by omega), if_pos hdepth]
    simp only [getD_replicate (show base + 3 * (j / 2) < m by omega),
      getD_replicate (show base + 3 * (j / 2) + 1 < m by omega), getD_replicate hlt]
    split <;> rfl
  · have hlt := h16 hdepth
    rw [if_neg (by omega), if_neg (by omega)]
    simp only [getD_replicate (show base + 2 * j < m by omega), getD_replicate hlt]
    rfl

theorem sample_zero {raw : List SaneByte} {i : Nat} (h : ∀ i, raw.getD i 0 = 0) :
    p.sample raw c i = 0 := by
  unfold sample
  split
  · exact component_zero h
  · exact component_zero h

theorem sample_ones {i : Nat} (hsup : p.Supported) (hi : i < p.pixelXs) :
    p.sample (List.replicate p.rawSize 0xff) c i = 65535 := by
  obtain ⟨hle, m, hm⟩ := p.scanXs_spec hsup
  have hslot := p.idxOf_channels_lt c
  unfold sample rawSize
  by_cases hmode : p.lineMode = true
  · have hbpl : p.scanBpl = p.depth * p.scanXs / 8 := by rw [scanBpl, if_pos hmode]
    have hbase : p.channels.idxOf c * p.scanBpl + p.scanBpl ≤ p.scanBpl * 3 := by
      rw [← Nat.succ_mul, Nat.mul_comm p.scanBpl]
      exact Nat.mul_le_mul_right _ hslot
    rw [if_pos hmode, if_pos hmode]
    apply component_ones hsup
    · intro h
      rw [h] at hbpl
      omega
    · intro h
      rw [h] at hbpl
      omega
    · intro h
      rw [h] at hbpl
      omega
  · have hbpl : p.scanBpl = p.depth * p.scanXs * 3 / 8 := by rw [scanBpl, if_neg hmode]
    rw [if_neg hmode, if_neg hmode]
    apply component_ones hsup
    · intro h
      rw [h] at hbpl
      omega
    · intro h
      rw [h] at hbpl
      omega
    · intro h
      rw [h] at hbpl
      omega

/-- The samples of the raw lines of a flash, whatever their layout. -/
theorem sample_flash {m t k i : Nat} (hsup : p.Supported) (ht : t ≤ m) (hi : i < p.pixelXs) :
    p.sample ((p.flash m t).getD k []) c i = if k = t then 65535 else 0 := by
  by_cases hk : k ≤ m
  · have hget : (p.flash m t).getD k [] =
        List.replicate p.rawSize (if k = t then 0xff else 0) := by
      rw [List.getD_eq_getElem?_getD, flash, List.getElem?_map, List.getElem?_range (by omega)]
      rfl
    rw [hget]
    by_cases hkt : k = t
    · rw [if_pos hkt, if_pos hkt]
      exact sample_ones hsup hi
    · rw [if_neg hkt, if_neg hkt]
      apply sample_zero
      intro j
      rw [List.getD_eq_getElem?_getD, List.getElem?_replicate]
      split <;> rfl
  · have hget : (p.flash m t).getD k [] = [] := by
      rw [List.getD_eq_getElem?_getD, List.getElem?_eq_none]
      · rfl
      · rw [length_flash]
        omega
    rw [hget, if_neg (by omega)]
    exact sample_zero fun j => rfl

/-- The first column of the second line of the CCD, in the line behind the first ones, for a
    flash in the raw line in which the second line of the CCD has seen it. -/
theorem flash_line (hsup : p.Supported) (hpos : 0 < p.pixelXs) (hfits : p.Fits)
    (hcol : p.doubleColumn < p.pixelXs) (hldd : 0 < p.ldShiftDouble) :
    ∃ outs row, scanLines p (p.flash p.maxDelay (p.maxDelay - p.delay .r + p.ldShiftDouble)) =
      .ok (.ok outs) ∧ outs[p.maxDelay]? = some row ∧
      (row .r)[p.doubleColumn]? = some (if p.doubles = true then 65535 else 0) := by
  have hle := p.delay_le_max .r
  have hddle : p.ldShiftDouble ≤ p.delay .r := Nat.le_add_left _ _
  obtain ⟨outs, houts, -, hlines⟩ := scanLines_spec hsup hpos hfits
    (@flash_size p p.maxDelay (p.maxDelay - p.delay .r + p.ldShiftDouble))
  obtain ⟨row, hline, hfills⟩ := hlines p.maxDelay (by rw [length_flash]; omega)
  refine ⟨outs, row, houts, hline, ?_⟩
  have hin : p.InDouble p.doubleColumn := ⟨le_rfl, by rw [Nat.sub_self]⟩
  refine (hfills .r hle p.doubleColumn hcol).trans ?_
  beta_reduce
  rw [sample_flash hsup (by omega) hcol]
  by_cases hdouble : p.doubles = true
  · have hlater : p.later p.doubleColumn = p.ldShiftDouble := if_pos ⟨hdouble, hin⟩
    rw [hlater, if_pos rfl, if_pos hdouble]
  · have hlater : p.later p.doubleColumn = 0 := if_neg fun hboth => hdouble hboth.1
    rw [hlater, if_neg (by omega), if_neg hdouble]

theorem aligned_iff (hsup : p.Supported) (hpos : 0 < p.pixelXs) :
    p.Aligned ↔ p.Fits ∧ p.Corrected := by
  constructor
  · intro h
    have hfits : p.Fits := by
      by_contra hfits
      obtain ⟨outs, houts, -⟩ := h [List.replicate p.rawSize 0] (by simp)
      rw [scanLines_error hsup hpos hfits] at houts
      exact nomatch houts
    refine ⟨hfits, ?_⟩
    by_contra hnot
    obtain ⟨hldd, hnot⟩ := not_or.mp hnot
    obtain ⟨horder, hcol⟩ := not_or.mp hnot
    have hdouble : ¬ p.doubles = true := fun hdouble => horder ((doubles_iff).mp hdouble).1
    have hldd := Nat.pos_of_ne_zero hldd
    have hcol := Nat.lt_of_not_le hcol
    obtain ⟨outs, row, houts, hline, hcell⟩ := flash_line hsup hpos hfits hcol hldd
    obtain ⟨outs', houts', -, hlines⟩ := h _ flash_size
    rw [houts] at houts'
    cases houts'
    obtain ⟨row', hline', hcells⟩ := hlines 0 (by rw [length_flash]; omega)
    rw [Nat.add_zero, hline] at hline'
    cases hline'
    have hle := p.delay_le_max .r
    have hddle : p.ldShiftDouble ≤ p.delay .r := Nat.le_add_left _ _
    have hcell' := hcells .r p.doubleColumn hcol
    have hin : p.InDouble p.doubleColumn := ⟨le_rfl, by rw [Nat.sub_self]⟩
    rw [hcell, if_neg hdouble, if_pos hin, Nat.zero_add, sample_flash hsup (by omega) hcol,
      if_pos rfl] at hcell'
    exact nomatch hcell'
  · rintro ⟨hfits, hcorrected⟩ raws hraws
    obtain ⟨outs, houts, hlen, hlines⟩ := scanLines_spec hsup hpos hfits hraws
    refine ⟨outs, houts, hlen, ?_⟩
    intro n hn
    obtain ⟨row, hline, hfills⟩ := hlines (p.maxDelay + n) hn
    refine ⟨row, hline, ?_⟩
    intro c i hi
    have hle := p.delay_le_max c
    have hat : n + (p.maxDelay - p.delay c) = p.maxDelay + n - p.delay c := by omega
    refine (hfills c (by omega) i hi).trans ?_
    beta_reduce
    rw [hcorrected.later_eq hi, hat]

theorem sameLines_iff {q : ScanParameters} (h : p.Sibling q) (hp : p.Supported)
    (hq : q.Supported) (hpos : 0 < p.pixelXs) (hpfits : p.Fits) (hqfits : q.Fits) :
    p.SameLines q ↔ p.doubles = q.doubles ∨ p.pixelXs ≤ p.doubleColumn := by
  have hqpos : 0 < q.pixelXs := by rwa [h.pixelXs]
  have hdelay : ∀ c, q.delay c = p.delay c := by
    intro c
    rw [delay, delay, h.ldShift, h.ldShiftDouble]
  have hmax : q.maxDelay = p.maxDelay := by
    rw [maxDelay, maxDelay, hdelay, hdelay, hdelay]
  have hin : ∀ i, q.InDouble i ↔ p.InDouble i := by
    intro i
    rw [InDouble, InDouble, h.doubleColumn]
  constructor
  · intro hsame
    by_contra hnot
    obtain ⟨hdoubles, hcol⟩ := not_or.mp hnot
    have hcol := Nat.lt_of_not_le hcol
    have hldd : 0 < p.ldShiftDouble := by
      by_contra hzero
      apply hdoubles
      unfold doubles
      rw [h.ldShiftDouble, decide_eq_false hzero, Bool.and_false, Bool.and_false]
    have hle := p.delay_le_max .r
    have hddle : p.ldShiftDouble ≤ p.delay .r := Nat.le_add_left _ _
    obtain ⟨outs, row, houts, hline, hcell⟩ := flash_line hp hpos hpfits hcol hldd
    obtain ⟨outs', row', houts', hline', hcell'⟩ := flash_line hq hqpos hqfits
      (by rw [h.doubleColumn, h.pixelXs]; exact hcol) (by rw [h.ldShiftDouble]; exact hldd)
    rw [hmax, hdelay, h.ldShiftDouble] at houts'
    rw [hmax] at hline'
    obtain ⟨o, o', ho, ho', hall⟩ := hsame
      (p.flash p.maxDelay (p.maxDelay - p.delay .r + p.ldShiftDouble))
      (q.flash p.maxDelay (p.maxDelay - p.delay .r + p.ldShiftDouble)) flash_size flash_size
      ((length_flash).trans (length_flash).symm) (by
        intro k c i hi
        rw [sample_flash hp (by omega) hi,
          sample_flash hq (by omega) (by rw [h.pixelXs]; exact hi)])
    rw [houts] at ho
    rw [houts'] at ho'
    cases ho
    cases ho'
    obtain ⟨l, l', hl, hl', hcells⟩ := hall p.maxDelay le_rfl (by rw [length_flash]; omega)
    rw [hline] at hl
    rw [hline'] at hl'
    cases hl
    cases hl'
    have heq := hcells .r p.doubleColumn hcol
    rw [h.doubleColumn] at hcell'
    rw [hcell, hcell'] at heq
    apply hdoubles
    cases hp' : p.doubles <;> cases hq' : q.doubles <;> rw [hp', hq'] at heq <;>
      first | rfl | exact absurd heq (by simp)
  · intro hequal raws raws' hraws hraws' hlen hsamples
    obtain ⟨outs, houts, -, hlines⟩ := scanLines_spec hp hpos hpfits hraws
    obtain ⟨outs', houts', -, hlines'⟩ := scanLines_spec hq hqpos hqfits hraws'
    refine ⟨outs, outs', houts, houts', ?_⟩
    intro n hmaxn hn
    obtain ⟨row, hline, hfills⟩ := hlines n hn
    obtain ⟨row', hline', hfills'⟩ := hlines' n (hlen ▸ hn)
    refine ⟨row, row', hline, hline', ?_⟩
    intro c i hi
    have hle := p.delay_le_max c
    have hlater : q.later i = p.later i := by
      rcases hequal with hequal | hcol
      · unfold later
        rw [hequal, h.ldShiftDouble]
        simp only [hin]
      · have hout : ¬ p.InDouble i := by
          intro hin
          have := hin.1
          omega
        unfold later
        rw [if_neg fun hboth => hout ((hin i).mp hboth.2), if_neg fun hboth => hout hboth.2]
    rw [hfills c (by omega) i hi]
    refine Eq.trans ?_ (hfills' c (by rw [hdelay]; omega) i (by rw [h.pixelXs]; exact hi)).symm
    beta_reduce
    rw [hlater, hdelay, hsamples _ c i hi]

/-- The readers align the lines of each scan whose sizes fit, but the second lines of a double
    CCD only for lines in the order red, green, blue; readers of both kinds return different
    lines. -/
theorem lines_aligned (p : ScanParameters) (hsup : p.Supported) (hpos : 0 < p.pixelXs) :
    (p.Aligned ↔ p.Fits ∧ p.Corrected) ∧
      ∀ q, p.Sibling q → q.Supported → p.Fits → q.Fits →
        (p.SameLines q ↔ p.doubles = q.doubles ∨ p.pixelXs ≤ p.doubleColumn) :=
  ⟨aligned_iff hsup hpos, fun _ h hq hpfits hqfits => sameLines_iff h hsup hq hpos hpfits hqfits⟩

/-- A double CCD with lines of four pixels. -/
def doubleScan (order : ColorOrder) : ScanParameters where
  depth := 8
  pixelXs := 4
  lineMode := true
  ldShift := fun c => if c = .g then 1 else 0
  ldShiftDouble := 2
  doubleColumn := 1
  order := order

theorem doubleScan_fits (order : ColorOrder) : (doubleScan order).Fits := by
  refine ⟨?_, fun _ => ?_⟩
  · intro c
    cases c <;> cases order <;> decide
  · cases order <;> decide

theorem lines_aligned_double : (doubleScan .rgb).Aligned :=
  (lines_aligned (doubleScan .rgb) (Or.inl rfl) (by decide)).1.mpr
    ⟨doubleScan_fits .rgb, Or.inr (Or.inl ⟨rfl, rfl⟩)⟩

/-- For the order blue, green, red the columns stay apart, and the lines are other ones. -/
theorem double_left_apart : ¬ (doubleScan .bgr).Aligned ∧
    ¬ (doubleScan .rgb).SameLines (doubleScan .bgr) := by
  have hne : ¬ (ColorOrder.bgr = .rgb) := nofun
  constructor
  · intro h
    rcases ((aligned_iff (Or.inl rfl) (by decide)).mp h).2 with h | ⟨-, h⟩ | h
    · exact absurd h (by decide)
    · exact hne h
    · exact absurd h (by decide)
  · intro h
    rcases (@sameLines_iff (doubleScan .rgb) (doubleScan .bgr) ⟨rfl, rfl, rfl, rfl⟩ (Or.inl rfl)
      (Or.inl rfl) (by decide) (doubleScan_fits .rgb) (doubleScan_fits .bgr)).mp h with h | h
    · exact absurd h (by decide)
    · exact absurd h (by decide)

end ScanParameters

end

end SaneBackends.Gt68xx
