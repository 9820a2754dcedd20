import SaneBackends.XeroxScan

/-!
# Progress of a Xerox or Samsung scanner

A call of `sane_read` ends unless the transport returns nothing any more, and it brings a scan
nearer to its end unless the buffer is stuck: all its room is in front of the end of the
memory and smaller than a USB block, and nothing in it can be copied.
-/

namespace SaneBackends.XeroxMfp

open LabelledRun RingMemory

variable {setup : ScanSetup} {b : Block} {bs : List Block} {dev dev' : Device} {maxlen : Nat}
  {ts : List Nat} {status : SaneStatus} {out : List SaneByte} {u u' : ScanRun} {call : ReadCall}

/-- Neither a transfer nor a copy is possible. -/
def Device.Stuck (setup : ScanSetup) (dev : Device) : Prop :=
  dev.blocklen ≠ 0 ∧ dataroom dev < USB_BLOCK_SIZE ∧ dev.Idle setup

instance (setup : ScanSetup) (dev : Device) : Decidable (dev.Stuck setup) :=
  inferInstanceAs (Decidable (_ ∧ _ ∧ _))

/-- What every call keeps: lines have at least one byte. -/
structure Device.Sound (setup : ScanSetup) (dev : Device) : Prop where
  ok : dev.Ok
  width_pos : 0 < dev.bytesPerLine
  blocks : ∀ c ∈ dev.blocks, 0 < setup.bytesPerLine c.horizontal

/-- What is still to be received, counted twice, and to be copied. -/
def Device.pending (dev : Device) : Nat :=
  dev.blocklen + dev.load + (dev.blocks.map fun c => 2 * c.blocklen + 1).sum

/-! ### A call -/

/-- If no byte has come, the buffer is as before. -/
theorem Filled.same_of_blocklen (setup : ScanSetup) (h : Filled dev dev')
    (heq : dev'.blocklen = dev.blocklen) :
    dataroom dev' = dataroom dev ∧ (dev'.Idle setup ↔ dev.Idle setup) := by
  have hload := h.load
  rw [Device.load, Device.load, heq, Nat.add_left_cancel_iff] at hload
  rw [h.same, dataroom, dataroom, Device.tail, Device.tail, Device.Idle, Device.Idle]
  dsimp only
  rw [hload]
  exact ⟨rfl, Iff.rfl⟩

/-- A turn leads on if the buffer has not been stuck before. -/
theorem turn_pending (hwidth : 0 < dev.bytesPerLine) (hmax : 0 < maxlen)
    (hstuck : ¬ dev.Stuck setup) (hfilled : Filled dev dev')
    (hroom : dataroom dev' < USB_BLOCK_SIZE ∨ dev'.blocklen = 0) (hmore : dev'.blocklen ≠ 0) :
    (copyTrim setup dev' maxlen).out ≠ [] ∨
      dev'.blocklen + (turn setup dev' maxlen).load < dev.blocklen + dev.load := by
  have hload := hfilled.load
  have hle := hfilled.blocklen_le
  have hblocklen : (turn setup dev' maxlen).blocklen = dev'.blocklen := blocklen_clear setup dev' _
  have hlen : (turn setup dev' maxlen).datalen ≤ dev'.datalen :=
    (datalen_clear_le setup dev' _).trans (Nat.sub_le _ _)
  rw [Device.load] at hload
  rw [Device.load, hblocklen]
  rcases Nat.lt_or_eq_of_le hle with hlt | heq
  · right
    omega
  · obtain ⟨hsame, hidle⟩ := hfilled.same_of_blocklen setup heq
    have hnot : ¬ dev'.Idle setup := fun h => hstuck ⟨heq ▸ hmore,
      hsame ▸ hroom.resolve_right hmore, hidle.mp h⟩
    have hwidth' : 0 < dev'.bytesPerLine := by
      rw [hfilled.same]
      exact hwidth
    exact (turn_of_not_idle hwidth' hmax hnot).imp_right fun hless => by omega

/-- What a call keeps that has started with `dev₀`. -/
structure Going (setup : ScanSetup) (dev₀ dev : Device) (out : List SaneByte) : Prop where
  sound : dev.Sound setup
  blocks : dev.blocks = dev₀.blocks
  le : dev.blocklen + dev.load ≤ dev₀.blocklen + dev₀.load
  moved : dev = dev₀ ∧ out = [] ∨ (¬ dev₀.Stuck setup → out ≠ [] ∨ dev.blocklen = 0 ∨
    dev.blocklen + dev.load < dev₀.blocklen + dev₀.load)

theorem Going.turn {dev₀ : Device} (h : Going setup dev₀ dev out) (hmax : 0 < maxlen)
    (hfilled : Filled dev dev') (hroom : dataroom dev' < USB_BLOCK_SIZE ∨ dev'.blocklen = 0) :
    Going setup dev₀ (turn setup dev' maxlen) (out ++ (copyTrim setup dev' maxlen).out) ∧
      (¬ dev₀.Stuck setup → out ++ (copyTrim setup dev' maxlen).out ≠ [] ∨
        (XeroxMfp.turn setup dev' maxlen).blocklen = 0 ∨
        (XeroxMfp.turn setup dev' maxlen).blocklen + (XeroxMfp.turn setup dev' maxlen).load
          < dev₀.blocklen + dev₀.load) := by
  have hload := hfilled.load
  have hle := hfilled.blocklen_le
  have hgoing := h.le
  have hblocklen : (XeroxMfp.turn setup dev' maxlen).blocklen = dev'.blocklen :=
    blocklen_clear setup dev' _
  have hlen : (XeroxMfp.turn setup dev' maxlen).datalen ≤ dev'.datalen :=
    (datalen_clear_le setup dev' _).trans (Nat.sub_le _ _)
  have hloadturn : (XeroxMfp.turn setup dev' maxlen).load ≤ dev.load := by
    rw [← hload, Device.load, Device.load, hblocklen]
    exact Nat.add_le_add_left hlen _
  have hblocks : (XeroxMfp.turn setup dev' maxlen).blocks = dev.blocks := by
    rw [XeroxMfp.turn, (clear_cases setup dev' _).1, hfilled.same]
  have hmoved : ¬ dev₀.Stuck setup → out ++ (copyTrim setup dev' maxlen).out ≠ [] ∨
      (XeroxMfp.turn setup dev' maxlen).blocklen = 0 ∨
      (XeroxMfp.turn setup dev' maxlen).blocklen + (XeroxMfp.turn setup dev' maxlen).load
        < dev₀.blocklen + dev₀.load := by
    intro hstuck
    by_cases hzero : dev'.blocklen = 0
    · exact .inr (.inl (hblocklen.trans hzero))
    rcases h.moved with ⟨rfl, rfl⟩ | hmoved
    · rw [hblocklen]
      exact (turn_pending h.sound.width_pos hmax hstuck hfilled hroom hzero).imp_right .inr
    · rcases hmoved hstuck with hout | hblock | hless
      · exact .inl (List.append_ne_nil_of_left_ne_nil hout _)
      · exact absurd (Nat.eq_zero_of_le_zero (hblock ▸ hle)) hzero
      · right; right
        omega
  refine ⟨⟨⟨clear_ok setup hfilled.ok _, ?_, ?_⟩, hblocks.trans h.blocks, by omega, .inr hmoved⟩, hmoved⟩
  · rw [XeroxMfp.turn, bytesPerLine_clear, hfilled.same]
    exact h.sound.width_pos
  · rw [hblocks]
    exact h.sound.blocks

/-- How the outer loop ends. -/
theorem readLoop_progress (h : dev.Sound setup) (hmax : 0 < maxlen) (ts : List Nat) :
    (readLoop setup (dev.load + 1) dev ts maxlen [] = .waiting ∧
      ts.countP (0 < ·) < dev.blocklen) ∨
    ∃ status out dev', readLoop setup (dev.load + 1) dev ts maxlen [] = .done status out dev' ∧
      dev'.Sound setup ∧ (status = .good → dev'.blocks = dev.blocks ∧
        dev'.blocklen + dev'.load ≤ dev.blocklen + dev.load ∧
        (¬ dev.Stuck setup → out = [] → dev'.blocklen ≠ 0 →
          dev'.blocklen + dev'.load < dev.blocklen + dev.load)) := by
  have hcases := readLoop_cases setup
    (I := fun d _ out => Going setup dev d out)
    (Q := fun d _ out => ¬ dev.Stuck setup → out ≠ [] ∨ d.blocklen = 0 ∨
      d.blocklen + d.load < dev.blocklen + dev.load)
    h.ok h.width_pos (Nat.lt_succ_self _) hmax ⟨h, rfl, le_rfl, .inl ⟨rfl, rfl⟩⟩
    (fun t (ht : t ∈ ts) => ht)
    fun d d' m out _ hgoing hfilled hroom hm _ => hgoing.turn hm hfilled hroom
  rcases hcases with hwait | ⟨dev₀, dev₁, m, out, n, hover, hgoing, hfilled, hblock, hroom, hsource⟩ |
    ⟨dev₁, m, out, hgood, -, hgoing, hmoved⟩
  · exact .inl hwait
  · right
    refine ⟨_, _, _, hover, ⟨?_, ?_, ?_⟩, fun hgood => by cases hgood⟩
    · have hbytes : (dev₁.source.take n).length = n := List.length_take_of_le hsource
      have hfits := (dataroom_fits hfilled.ok).2
      refine ⟨hfilled.ok.dataoff_lt, ?_, ?_⟩
      · simp only [receive, hbytes]
        omega
      · simp only [receive, hbytes]
        omega
    · show 0 < dev₁.bytesPerLine
      rw [hfilled.same]
      exact hgoing.sound.width_pos
    · show ∀ c ∈ dev₁.blocks, 0 < setup.bytesPerLine c.horizontal
      rw [hfilled.same]
      exact hgoing.sound.blocks
  · right
    refine ⟨_, _, _, hgood, hgoing.sound, fun _ => ⟨hgoing.blocks, hgoing.le,
      fun hstuck hout hmore => ?_⟩⟩
    rcases hmoved hstuck with hne | hzero | hless
    · exact absurd hout hne
    · exact absurd hzero hmore
    · exact hless

theorem Device.Sound.readImage (h : dev.Sound setup) : (readImage dev).Sound setup := by
  rw [readImage_same]
  exact ⟨⟨h.ok.dataoff_lt, h.ok.datalen_le, h.ok.enough⟩, h.width_pos, h.blocks⟩

/-- A block is acquired, if only to end the scan. -/
theorem acquire_sound (hok : dev.Ok) (hwidth : 0 < setup.bytesPerLine b.horizontal)
    (hbs : ∀ c ∈ bs, 0 < setup.bytesPerLine c.horizontal) :
    (devAcquire setup dev b bs).Sound setup ∧
      (devAcquire setup dev b bs).blocklen = b.blocklen ∧
      (devAcquire setup dev b bs).blocks = bs ∧
      (devAcquire setup dev b bs).datalen ≤ dev.datalen := by
  rw [devAcquire]
  dsimp only
  split
  · exact ⟨⟨⟨hok.dataoff_lt, hok.datalen_le, b.enough⟩, hwidth, hbs⟩, rfl, rfl, le_rfl⟩
  · exact ⟨⟨⟨Nat.succ_pos _, Nat.zero_le _, b.enough⟩, hwidth, hbs⟩, rfl, rfl, Nat.zero_le _⟩

/-- How a call ends: with enough transfers that are not empty it returns. -/
theorem saneRead_progress (h : dev.Sound setup) (hmax : 0 < maxlen) (ts : List Nat) :
    (saneRead setup dev maxlen ts = .waiting ∧
      ts.countP (0 < ·) < dev.blocklen + (dev.blocks.map Block.blocklen).sum) ∨
    ∃ status out dev', saneRead setup dev maxlen ts = .done status out dev' ∧
      dev'.Sound setup ∧ (status = .good → ¬ dev.Stuck setup → out = [] → dev'.blocklen ≠ 0 →
        dev'.pending < dev.pending) := by
  rw [saneRead]
  split_ifs with hstop hempty hfinal hslack
  · right
    exact ⟨_, _, _, rfl, h, fun hgood => by cases hgood⟩
  · right
    exact ⟨_, _, _, rfl, ⟨⟨h.ok.dataoff_lt, h.ok.datalen_le, h.ok.enough⟩, h.width_pos, h.blocks⟩,
      fun _ _ _ hmore => absurd hempty.1 hmore⟩
  · right
    exact ⟨_, _, _, rfl, ⟨⟨h.ok.dataoff_lt, h.ok.datalen_le, h.ok.enough⟩, h.width_pos, h.blocks⟩,
      fun hgood => by cases hgood⟩
  · cases hblocks : dev.blocks with
    | nil =>
      right
      exact ⟨_, _, _, rfl, h, fun hgood => by cases hgood⟩
    | cons b bs =>
      have hwidths := h.blocks
      rw [hblocks] at hwidths
      obtain ⟨hsound, hblocklen, hrest, hdatalen⟩ := acquire_sound h.ok
        (hwidths b List.mem_cons_self) fun c hc => hwidths c (List.mem_cons_of_mem b hc)
      have hacquired := readImage_same (devAcquire setup dev b bs)
      rcases readLoop_progress hsound.readImage hmax ts with ⟨hwait, hcount⟩ |
        ⟨status, out, dev', hdone, hsound', hprogress⟩
      · left
        refine ⟨hwait, ?_⟩
        rw [hacquired] at hcount
        rw [List.map_cons, List.sum_cons]
        dsimp only at hcount
        omega
      · right
        refine ⟨status, out, dev', hdone, hsound', fun hgood _ _ _ => ?_⟩
        obtain ⟨hsame, hle, -⟩ := hprogress hgood
        rw [hacquired] at hsame hle
        rw [Device.pending, Device.pending, hsame, hblocks, Device.load, List.map_cons,
          List.sum_cons]
        rw [Device.load, Device.load] at hle
        dsimp only at hle ⊢
        rw [hrest]
        rw [Device.load]
        omega
  · have himage := readImage_same dev
    rcases readLoop_progress h.readImage hmax ts with ⟨hwait, hcount⟩ |
      ⟨status, out, dev', hdone, hsound', hprogress⟩
    · left
      refine ⟨hwait, ?_⟩
      rw [himage] at hcount
      dsimp only at hcount
      omega
    · right
      refine ⟨status, out, dev', hdone, hsound', fun hgood hstuck hout hmore => ?_⟩
      obtain ⟨hsame, -, hless⟩ := hprogress hgood
      have hstuck' : ¬ (readImage dev).Stuck setup := by
        rw [himage]
        exact hstuck
      have hless' := hless hstuck' hout hmore
      rw [himage] at hsame hless'
      rw [Device.pending, Device.pending, hsame]
      exact Nat.add_lt_add_right hless' _

/-! ### A buffer that is stuck -/

theorem copyTrim_of_idle (h : dev.Idle setup) (maxlen : Nat) :
    copyTrim setup dev maxlen = ⟨[], dev.dataindex, 0⟩ := by
  rw [Device.Idle] at h
  rw [copyTrim]
  split
  · rename_i hmixes
    rw [if_pos hmixes] at h
    obtain ⟨i, hi, hrun, -⟩ := copyMixBandsTrim_eq setup dev maxlen
    rw [Device.havelen, Nat.div_eq_of_lt h, Nat.zero_mul, Nat.zero_sub] at hi
    rw [hrun, Nat.eq_zero_of_le_zero hi, Nat.add_zero, Nat.sub_self, Nat.zero_mul]
    rfl
  · rename_i hmixes
    rw [if_neg hmixes] at h
    obtain ⟨i, hi, hrun, -, hall, -⟩ := copyPlainTrim_eq setup dev maxlen
    have hzero : i = 0 := by
      rcases h with hdata | hend
      · omega
      · by_contra hpos
        have := hall 0 (by omega)
        rw [Nat.add_zero] at this
        omega
    rw [hrun, hzero]
    rfl

/-- Above the end of the image it stays stuck. -/
theorem Device.Stuck.readLoop (h : dev.Stuck setup) (hoff : dev.dataoff < DATASIZE)
    (hwidth : 0 < dev.bytesPerLine)
    (himage : dev.dataindex / dev.bytesPerLine + dev.yOff < setup.lines) (fuel : Nat)
    (ts : List Nat) (maxlen : Nat) (out : List SaneByte) :
    readLoop setup (fuel + 1) dev ts maxlen out = .done .good out dev := by
  obtain ⟨hblock, hroom, hidle⟩ := h
  have hfill : fill dev ts = .done dev ts := by
    cases ts with
    | nil => rw [fill, if_pos (.inl (usbBlocks_eq_zero.mpr hroom))]
    | cons t ts => rw [fill, if_pos (.inl (usbBlocks_eq_zero.mpr hroom))]
  have hclear : dev.clear setup ⟨[], dev.dataindex, 0⟩ = dev := by
    rw [Device.clear]
    dsimp only
    rw [if_neg (Nat.not_le.mpr himage), Nat.add_zero, Nat.mod_eq_of_lt hoff]
    rfl
  rw [XeroxMfp.readLoop, hfill]
  dsimp only
  rw [if_neg hwidth.ne', copyTrim_of_idle hidle, hclear, if_pos (.inl rfl), List.append_nil]

/-- The calls return nothing. -/
theorem Device.Stuck.saneRead (h : dev.Stuck setup) (hscanning : dev.scanning = true)
    (hreading : dev.reading = true) (hoff : dev.dataoff < DATASIZE) (hwidth : 0 < dev.bytesPerLine)
    (himage : dev.dataindex / dev.bytesPerLine + dev.yOff < setup.lines) (maxlen : Nat)
    (ts : List Nat) : saneRead setup dev maxlen ts = .done .good [] dev := by
  rw [XeroxMfp.saneRead, if_neg (by rw [hscanning]; decide), if_neg fun hempty => h.1 hempty.1]
  dsimp only
  rw [readImage_of_reading hreading, h.readLoop hoff hwidth himage]

/-! ### Runs -/

def ScanRun.NextStep (setup : ScanSetup) (u : ScanRun) (call : ReadCall) (u' : ScanRun) : Prop :=
  u.next setup call = some u'

/-- A call that returns nothing, although the block has not ended, and for another reason than a
    stuck buffer. -/
def ScanRun.SilentStep (setup : ScanSetup) (u : ScanRun) (call : ReadCall) (u' : ScanRun) : Prop :=
  u.NextStep setup call u' ∧ u'.status = .good ∧ u'.delivered = u.delivered ∧
    u'.dev.blocklen ≠ 0 ∧ ¬ u.dev.Stuck setup

theorem ScanRun.next_sound (h : u.dev.Sound setup) (hnext : u.next setup call = some u') :
    u'.dev.Sound setup := by
  obtain ⟨out, hread, -⟩ := next_cases hnext
  rcases saneRead_progress h call.maxlen_pos call.transfers with ⟨hwait, -⟩ |
    ⟨status, out', dev', hdone, hsound, -⟩
  · rw [hwait] at hread
    cases hread
  · rw [hdone] at hread
    injection hread with _ _ hdev
    rwa [← hdev]

theorem ScanRun.SilentStep.pending_lt (h : u.dev.Sound setup) (hstep : u.SilentStep setup call u') :
    u'.dev.pending < u.dev.pending := by
  obtain ⟨hnext, hgood, hnothing, hmore, hstuck⟩ := hstep
  obtain ⟨out, hread, hdelivered⟩ := next_cases hnext
  rw [hdelivered, List.append_right_eq_self] at hnothing
  rcases saneRead_progress h call.maxlen_pos call.transfers with ⟨hwait, -⟩ |
    ⟨status, out', dev', hdone, -, hless⟩
  · rw [hwait] at hread
    cases hread
  · rw [hdone] at hread
    injection hread with hstatus hout hdev
    rw [← hdev] at hmore ⊢
    exact hless (hstatus.trans hgood) hstuck (hout.trans hnothing) hmore

theorem silent_run_le {calls : List ReadCall} (h : u.dev.Sound setup)
    (hrun : Run (ScanRun.SilentStep setup) u calls u') :
    u'.dev.Sound setup ∧ calls.length + u'.dev.pending ≤ u.dev.pending := by
  refine hrun.history (I := fun calls u' => u'.dev.Sound setup ∧
    calls.length + u'.dev.pending ≤ u.dev.pending) ⟨h, by rw [List.length_nil, Nat.zero_add]⟩ ?_
  rintro calls v call v' ⟨hsound, hle⟩ hstep
  have hless := hstep.pending_lt hsound
  refine ⟨v.next_sound hsound hstep.1, ?_⟩
  rw [List.length_append, List.length_singleton]
  omega

/-- Among enough lengths there are as many as wanted that are not 0. -/
theorem exists_countP {ts : Nat → Nat} (h : ∀ k, ∃ n, k ≤ n ∧ 0 < ts n) (m : Nat) :
    ∃ n, m ≤ ((List.range n).map ts).countP (0 < ·) := by
  induction m with
  | zero => exact ⟨0, Nat.zero_le _⟩
  | succ m ih =>
    obtain ⟨k, hk⟩ := ih
    obtain ⟨n, hkn, hpos⟩ := h k
    refine ⟨n + 1, ?_⟩
    have hsub : ((List.range k).map ts).countP (0 < ·) ≤ ((List.range n).map ts).countP (0 < ·) :=
      ((List.range_sublist.mpr hkn).map ts).countP_le
    rw [List.range_succ, List.map_append, List.countP_append, List.map_singleton,
      List.countP_singleton, if_pos (decide_eq_true hpos)]
    omega

/-- Whatever the transfers, a call stays within the buffer and does not run for ever; it returns
    if there is always another transfer that is not empty.  Calls that return nothing while a
    block is being read come to an end unless the buffer is stuck. -/
theorem xerox_progress (hwidth : ∀ c ∈ b :: bs, 0 < setup.bytesPerLine c.horizontal)
    (mem : Nat → SaneByte) {calls : List ReadCall}
    (h : Run (ScanRun.NextStep setup) (startScan setup mem b bs) calls u) :
    (∀ maxlen ts, 0 < maxlen → saneRead setup u.dev maxlen ts ≠ .fault ∧
      saneRead setup u.dev maxlen ts ≠ .running) ∧
    (∀ maxlen (ts : Nat → Nat), 0 < maxlen → (∀ k, ∃ n, k ≤ n ∧ 0 < ts n) →
      ∃ n status out dev,
        saneRead setup u.dev maxlen ((List.range n).map ts) = .done status out dev) ∧
    ∀ calls' u', Run (ScanRun.SilentStep setup) u calls' u' →
      calls'.length ≤ u.dev.pending := by
  have hstart : (startScan setup mem b bs).dev.Sound setup :=
    (acquire_sound ⟨Nat.succ_pos _, Nat.zero_le _, le_rfl⟩ (hwidth b List.mem_cons_self)
      fun c hc => hwidth c (List.mem_cons_of_mem b hc)).1
  have hsound : u.dev.Sound setup := h.invariant (I := fun u => u.dev.Sound setup) hstart
    fun u call u' hsound hnext => u.next_sound hsound hnext
  refine ⟨fun maxlen ts hmax => ?_, fun maxlen ts hmax hmore => ?_, fun calls' u' hsilent => ?_⟩
  · rcases saneRead_progress hsound hmax ts with ⟨hwait, -⟩ | ⟨status, out, dev, hdone, -⟩
    · rw [hwait]
      exact ⟨nofun, nofun⟩
    · rw [hdone]
      exact ⟨nofun, nofun⟩
  · obtain ⟨n, hn⟩ := exists_countP hmore
      (u.dev.blocklen + (u.dev.blocks.map Block.blocklen).sum)
    refine ⟨n, ?_⟩
    rcases saneRead_progress hsound hmax ((List.range n).map ts) with ⟨-, hcount⟩ |
      ⟨status, out, dev, hdone, -⟩
    · omega
    · exact ⟨status, out, dev, hdone⟩
  · exact (Nat.le_add_right _ _).trans (silent_run_le hsound hsilent).2

/-- A line of a gray scan, received in one transfer. -/
theorem xerox_progress_gray : ∃ u, Run (ScanRun.NextStep grayScan)
    (startScan grayScan (fun _ => 0) grayBlock []) ([9].map ReadCall.usb) u ∧
    u.delivered.length = 10 ∧ ∀ calls' u', Run (ScanRun.SilentStep grayScan) u calls' u' →
      calls'.length ≤ u.dev.pending := by
  obtain ⟨u, hu, hend⟩ := (Option.any_eq_true _ _).mp (show (runAll
    (fun u call => u.next grayScan call) ([9].map ReadCall.usb)
    (startScan grayScan (fun _ => 0) grayBlock [])).any (fun u => u.delivered.length = 10) = true
      by decide +kernel)
  have hrun : Run (ScanRun.NextStep grayScan) (startScan grayScan (fun _ => 0) grayBlock [])
      ([9].map ReadCall.usb) u := Run.of_runAll hu fun _ _ _ h => h
  have hwidth : ∀ c ∈ [grayBlock], 0 < grayScan.bytesPerLine c.horizontal := by decide
  exact ⟨u, hrun, of_decide_eq_true hend, (xerox_progress hwidth _ hrun).2.2⟩

/-- Transfers without any bytes are waited for as long as they come. -/
theorem fill_empty (h : dev.Ok) (hroom : USB_BLOCK_SIZE ≤ dataroom dev) (hblock : dev.blocklen ≠ 0)
    (n : Nat) : fill dev (List.replicate n 0) = .waiting := by
  have hgo : ¬ (usbBlocks (dataroom dev) = 0 ∨ dev.blocklen = 0) := by
    rw [not_or, usbBlocks_eq_zero]
    exact ⟨Nat.not_lt.mpr hroom, hblock⟩
  induction n generalizing dev with
  | zero => rw [List.replicate_zero, fill, if_neg hgo]
  | succ n ih =>
    have htail : dev.tail < DATASIZE := Nat.mod_lt _ (by decide)
    have hlen := h.datalen_le
    have hfilled := filled_receive h (Nat.zero_le _) (Nat.zero_le _)
    have hsame := (hfilled.same_of_blocklen grayScan rfl).1
    have hmore := @ih (receive dev 0) hfilled.ok (by rwa [hsame]) hblock
      (by rw [hsame]; exact hgo)
    rw [List.replicate_succ, fill, if_neg hgo]
    simp only [Nat.zero_min, Nat.add_zero]
    rw [if_neg (by omega), if_neg (Nat.not_lt_zero _)]
    exact hmore

/-- Two gray lines of `n` pixels. -/
def grayLines (n : Nat) (h : 2 * n < 2 ^ 31) : Block where
  vertical := 2
  horizontal := n
  blocklen := 2 * n
  blocklen_lt := h
  final := true
  data := List.replicate (2 * n) 7
  enough := by rw [List.length_replicate]

/-- The image has the first pixels of two lines. -/
def wideScan : ScanSetup := ⟨.gray8, false, 1, 2⟩

section Wide

variable {n : Nat} (hlow : DATASIZE < n + USB_BLOCK_SIZE) (hhigh : n < DATASIZE)

/-- The first line is in the buffer, or has been copied. -/
def wideDevice (n : Nat) (mem : Nat → SaneByte) (datalen dataoff dataindex totalOutSize : Nat) :
    Device where
  scanning := true
  reading := true
  data := mem
  datalen := datalen
  dataoff := dataoff
  dataindex := dataindex
  blocklen := n
  vertical := 2
  horizontal := n
  bytesPerLine := n
  finalBlock := true
  ulines := 2
  yOff := 0
  totalOutSize := totalOutSize
  source := (List.replicate (2 * n) 7).drop n
  blocks := []

include hlow hhigh

theorem wideDevice_room (mem : Nat → SaneByte) (k t : Nat) :
    dataroom (wideDevice n mem n 0 k t) < USB_BLOCK_SIZE ∧
      dataroom (wideDevice n mem 0 n k t) < USB_BLOCK_SIZE := by
  simp only [dataroom, Device.tail, wideDevice, Nat.zero_add, Nat.add_zero,
    Nat.mod_eq_of_lt hhigh, Nat.not_lt_zero, if_false, lt_self_iff_false]
  rw [if_neg hhigh.ne, if_neg (by decide)]
  omega

theorem wideDevice_stuck (mem : Nat → SaneByte) :
    (wideDevice n mem 0 n n 1).Stuck wideScan := by
  refine ⟨?_, (wideDevice_room hlow hhigh mem n 1).2, ?_⟩
  · show n ≠ 0
    simp only [DATASIZE, USB_BLOCK_SIZE] at hlow
    omega
  · rw [Device.Idle, if_neg (by decide)]
    exact .inl rfl

theorem wide_turn (mem : Nat → SaneByte) :
    (copyTrim wideScan (wideDevice n mem n 0 0 0) 2).clrlen = n ∧
      (copyTrim wideScan (wideDevice n mem n 0 0 0) 2).out.length = 1 ∧
      (wideDevice n mem n 0 0 0).clear wideScan (copyTrim wideScan (wideDevice n mem n 0 0 0) 2)
        = wideDevice n mem 0 n n 1 := by
  have hpos : 1 < n := by
    simp only [DATASIZE, USB_BLOCK_SIZE] at hlow
    omega
  obtain ⟨i, hi, hrun, -, hbefore, hend⟩ := copyPlainTrim_eq wideScan (wideDevice n mem n 0 0 0) 2
  have hpicked : (picked (wideDevice n mem n 0 0 0).plainByte
      ((wideDevice n mem n 0 0 0).plainWanted wideScan) 0 i).length = min 1 i := by
    rw [picked_take (p := 1) fun d hd => ?_, List.length_take, List.length_map, List.length_range]
    have hmod : d % n = d := Nat.mod_eq_of_lt (hd.trans_le hi)
    have hdiv : d / n = 0 := Nat.div_eq_of_lt (hd.trans_le hi)
    simp only [Device.plainWanted, wideDevice, Nat.zero_add, hmod, hdiv]
    exact Bool.and_true _
  have hall : i = n := by
    rcases hend with hdatalen | hfull | hstop
    · exact hdatalen
    · omega
    · have hline : i / n ≤ 1 := by
        rw [← Nat.div_self (Nat.zero_lt_of_lt hpos)]
        exact Nat.div_le_div_right hi
      simp only [wideDevice, Nat.zero_add] at hstop
      omega
  have hcopied : copyTrim wideScan (wideDevice n mem n 0 0 0) 2
      = ⟨picked (wideDevice n mem n 0 0 0).plainByte
        ((wideDevice n mem n 0 0 0).plainWanted wideScan) 0 n, n, n⟩ := by
    rw [copyTrim, if_neg (by decide), hrun, hall]
    simp only [wideDevice, Nat.zero_add]
  rw [hall, Nat.min_eq_left hpos.le] at hpicked
  rw [hcopied]
  refine ⟨rfl, hpicked, ?_⟩
  rw [Device.clear]
  dsimp only
  rw [hpicked]
  simp only [wideDevice, wideScan, Nat.div_self (Nat.zero_lt_of_lt hpos), Nat.sub_self,
    Nat.zero_add, Nat.mod_eq_of_lt hhigh]
  rfl

/-- The first transfer. -/
theorem wide_fill (mem : Nat → SaneByte) : ∃ mem', fill { wideDevice n mem 0 0 0 0 with
    blocklen := 2 * n, source := List.replicate (2 * n) 7 } [n]
      = .done (wideDevice n mem' n 0 0 0) [] := by
  have hpos : 0 < n := by
    simp only [DATASIZE, USB_BLOCK_SIZE] at hlow
    omega
  generalize hdev : { wideDevice n mem 0 0 0 0 with
    blocklen := 2 * n, source := List.replicate (2 * n) 7 } = dev
  have hroom : usbBlocks (dataroom dev) = DATASIZE := by
    rw [← hdev]
    simp [dataroom, Device.tail, wideDevice, usbBlocks, DATASIZE, USB_BLOCK_SIZE]
  have htail : dev.tail = 0 := by
    rw [← hdev]
    rfl
  have hblock : dev.blocklen = 2 * n := by rw [← hdev]
  have hdatalen : dev.datalen = 0 := by
    rw [← hdev]
    rfl
  have hsource : dev.source = List.replicate (2 * n) 7 := by rw [← hdev]
  have hn : min n (min DATASIZE dev.source.length) = n := by
    rw [hsource, List.length_replicate]
    omega
  have hbytes : ((List.replicate (2 * n) (7 : SaneByte)).take n).length = n := by
    rw [List.length_take, List.length_replicate]
    omega
  have hhalf : 2 * n - n = n := by omega
  have hreceive : receive dev n = wideDevice n (receive dev n).data n 0 0 0 := by
    simp only [receive, hsource, hbytes, hblock, hdatalen, hhalf, Nat.zero_add]
    rw [← hdev]
    rfl
  have hend := (wideDevice_room hlow hhigh (receive dev n).data 0 0).1
  refine ⟨(receive dev n).data, ?_⟩
  rw [fill, if_neg (by rw [hroom, hblock, not_or]; exact ⟨by decide, by omega⟩)]
  simp only [hroom, hn]
  rw [if_neg (by omega), if_neg (by omega), hreceive, fill,
    if_pos (.inl (usbBlocks_eq_zero.mpr hend))]
  rfl

/-- When the first line has been received in one transfer and copied, less than a USB block is
    left in front of the end of the buffer, and no call ever gets further. -/
theorem wide_stuck (hint : 2 * n < 2 ^ 31) : ∃ u, Run (ScanRun.NextStep wideScan)
    (startScan wideScan (fun _ => 0) (grayLines n hint) []) [⟨2, by decide, [n]⟩] u ∧
    u.status = .good ∧ u.dev.Stuck wideScan ∧ ∀ call, u.next wideScan call = some u := by
  have hpos : 0 < n := by
    simp only [DATASIZE, USB_BLOCK_SIZE] at hlow
    omega
  have hstart : readImage (startScan wideScan (fun _ => 0) (grayLines n hint) []).dev
      = { wideDevice n (fun _ => 0) 0 0 0 0 with
        blocklen := 2 * n, source := List.replicate (2 * n) 7 } := by
    have hwidth : ¬ DATASIZE < wideScan.bytesPerLine (grayLines n hint).horizontal :=
      Nat.not_lt.mpr hhigh.le
    rw [startScan, saneStart, devAcquire]
    dsimp only
    rw [if_neg hwidth]
    rfl
  obtain ⟨mem, hfill⟩ := wide_fill hlow hhigh fun _ => 0
  obtain ⟨hclrlen, hout, hclear⟩ := wide_turn hlow hhigh mem
  have hstuck := wideDevice_stuck hlow hhigh mem
  have hlast : n / n + 0 < 2 := by
    rw [Nat.div_self hpos]
    decide
  have hread : saneRead wideScan (startScan wideScan (fun _ => 0) (grayLines n hint) []).dev 2 [n]
      = .done .good (copyTrim wideScan (wideDevice n mem n 0 0 0) 2).out
        (wideDevice n mem 0 n n 1) := by
    have hdev := readImage_same (startScan wideScan (fun _ => 0) (grayLines n hint) []).dev
    have hscanning : (startScan wideScan (fun _ => 0) (grayLines n hint) []).dev.scanning = true :=
      congrArg Device.scanning (hdev.symm.trans hstart)
    have hblocklen : (startScan wideScan (fun _ => 0) (grayLines n hint) []).dev.blocklen = 2 * n :=
      congrArg Device.blocklen (hdev.symm.trans hstart)
    rw [saneRead, if_neg (by rw [hscanning]; decide), if_neg (by rw [hblocklen]; omega)]
    dsimp only
    rw [hstart, readLoop, hfill]
    dsimp only
    have hmore : ¬ (n = 0 ∨ 2 ≤ 1 ∨ (wideDevice n mem 0 n n 1).blocklen = 0) := by
      rw [not_or, not_or]
      exact ⟨hpos.ne', by decide, hpos.ne'⟩
    rw [if_neg (show ¬ (wideDevice n mem n 0 0 0).bytesPerLine = 0 from hpos.ne'), hclear, hclrlen,
      hout, if_neg hmore, show Device.load _ = 2 * n - 1 + 1 by
        rw [Device.load]
        dsimp only [wideDevice]
        omega,
      hstuck.readLoop hhigh hpos hlast, List.nil_append]
  refine ⟨⟨wideDevice n mem 0 n n 1, .good,
    (copyTrim wideScan (wideDevice n mem n 0 0 0) 2).out⟩, ?_, rfl, hstuck, fun call => ?_⟩
  · refine Run.snoc .nil ?_
    rw [ScanRun.NextStep, ScanRun.next]
    dsimp only
    rw [hread]
    rfl
  · rw [ScanRun.next]
    dsimp only
    rw [hstuck.saneRead rfl rfl hhigh hpos hlast]
    dsimp only
    rw [List.append_nil]

end Wide

/-- Over a closed connection a call does not return, and a buffer that is stuck returns nothing
    for ever. -/
theorem xerox_no_progress :
    (∀ n, saneRead grayScan (startScan grayScan (fun _ => 0) grayBlock []).dev 10
      (List.replicate n 0) = .waiting) ∧
    ∃ u, Run (ScanRun.NextStep wideScan)
      (startScan wideScan (fun _ => 0) (grayLines 65400 (by decide)) []) [⟨2, by decide, [65400]⟩] u ∧
      u.status = .good ∧ u.dev.blocklen ≠ 0 ∧ ∀ call, u.next wideScan call = some u := by
  constructor
  · intro n
    have hfill : fill (readImage (startScan grayScan (fun _ => 0) grayBlock []).dev)
        (List.replicate n 0) = .waiting :=
      fill_empty (inBlock_acquire grayBlock_exact _ _).ok (by decide) (by decide) n
    rw [saneRead, if_neg (by decide), if_neg (by decide)]
    dsimp only
    rw [readLoop, hfill]
  · obtain ⟨u, hrun, hgood, hstuck, hsame⟩ := wide_stuck (n := 65400) (by decide) (by decide)
      (by decide)
    exact ⟨u, hrun, hgood, hstuck.1, hsame⟩

end SaneBackends.XeroxMfp
