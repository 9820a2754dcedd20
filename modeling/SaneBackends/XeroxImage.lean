import SaneBackends.LabelledRun
import SaneBackends.XeroxRead

/-!
# The image of a Xerox or Samsung scanner

The lines of all blocks, cut to the width of the image, and what is missing filled up with
white: what a scan returns up to its end.
-/

namespace SaneBackends.XeroxMfp

open LabelledRun RingMemory

variable {setup : ScanSetup} {b : Block} {dev dev' : Device} {maxlen : Nat}

/-! ### Blocks -/

namespace ScanSetup

/-- Where byte `k` of a block comes from. -/
def origin (setup : ScanSetup) (horizontal k : Nat) : Nat :=
  let linesize := setup.bytesPerLine horizontal
  if setup.mixes then k / linesize * linesize + (k % 3 * horizontal + k % linesize / 3) else k

/-- Whether byte `k` of a block that begins with line `top` lies within the image. -/
def wanted (setup : ScanSetup) (horizontal top k : Nat) : Bool :=
  let linesize := setup.bytesPerLine horizontal
  k % linesize < setup.paraBytesPerLine && k / linesize + top < setup.lines

/-- Where the buffer begins when the index is `k`: with whole lines, if bands are mixed. -/
def base (setup : ScanSetup) (horizontal k : Nat) : Nat :=
  let linesize := setup.bytesPerLine horizontal
  if setup.mixes then k / linesize * linesize else k

end ScanSetup

/-- The bytes of the image from byte `k` of a block on. -/
def blockRest (setup : ScanSetup) (b : Block) (top k : Nat) : List SaneByte :=
  picked (fun k => b.data.getD (setup.origin b.horizontal k) 0) (setup.wanted b.horizontal top) k
    (b.vertical * setup.bytesPerLine b.horizontal - k)

/-- A block of whole lines with some padding: what is announced is what is sent.  Lines whose
    bands are mixed are longer than the padding. -/
structure Block.Exact (setup : ScanSetup) (b : Block) : Prop where
  length_data : b.data.length = b.blocklen
  lines_le : b.vertical * setup.bytesPerLine b.horizontal ≤ b.blocklen
  padding_le : b.blocklen ≤ b.vertical * setup.bytesPerLine b.horizontal + PADDING_SIZE
  width_pos : 0 < setup.bytesPerLine b.horizontal
  width_le : setup.bytesPerLine b.horizontal ≤ DATASIZE
  padding_lt : setup.mixes = true → b.blocklen
    < b.vertical * setup.bytesPerLine b.horizontal + setup.bytesPerLine b.horizontal

theorem paraBytesPerLine_of_mixes (h : setup.mixes = true) :
    setup.paraBytesPerLine = setup.pixelsPerLine * 3 := by
  simp only [ScanSetup.mixes, Bool.and_eq_true, beq_iff_eq] at h
  rw [ScanSetup.paraBytesPerLine, h.1]

theorem bytesPerLine_of_mixes (h : setup.mixes = true) (horizontal : Nat) :
    setup.bytesPerLine horizontal = horizontal * 3 := by
  simp only [ScanSetup.mixes, Bool.and_eq_true, beq_iff_eq] at h
  rw [ScanSetup.bytesPerLine, h.1]

/-! ### Picked bytes -/

theorem picked_append (byte : Nat → SaneByte) (wanted : Nat → Bool) (j i n : Nat) :
    picked byte wanted j (i + n) = picked byte wanted j i ++ picked byte wanted (j + i) n := by
  rw [picked, ← List.range'_append_1, List.filterMap_append]
  rfl

theorem picked_congr {byte byte' : Nat → SaneByte} {wanted wanted' : Nat → Bool} {j k i : Nat}
    (h : ∀ d < i, wanted (j + d) = wanted' (k + d) ∧
      (wanted (j + d) = true → byte (j + d) = byte' (k + d))) :
    picked byte wanted j i = picked byte' wanted' k i := by
  induction i generalizing j k with
  | zero => rfl
  | succ i ih =>
    have hmore := @ih (j + 1) (k + 1) fun d hd => by
      have := h (d + 1) (by omega)
      rwa [Nat.add_right_comm j, Nat.add_right_comm k, Nat.add_assoc j, Nat.add_assoc k]
    obtain ⟨hwanted, hbyte⟩ := h 0 (Nat.succ_pos i)
    rw [Nat.add_zero, Nat.add_zero] at hwanted hbyte
    rw [picked_succ, picked_succ, ← hwanted, hmore]
    cases hw : wanted j with
    | true => rw [if_pos rfl, if_pos rfl, hbyte hw]
    | false => rfl

theorem picked_none {byte : Nat → SaneByte} {wanted : Nat → Bool} {j i : Nat}
    (h : ∀ d < i, wanted (j + d) = false) : picked byte wanted j i = [] := by
  induction i generalizing j with
  | zero => rfl
  | succ i ih =>
    have hj := h 0 (Nat.succ_pos i)
    rw [Nat.add_zero] at hj
    rw [picked_succ, hj, if_neg (by decide)]
    apply ih
    intro d hd
    have := h (d + 1) (by omega)
    rwa [← Nat.add_assoc, Nat.add_right_comm] at this

theorem wanted_past {horizontal top k k' : Nat}
    (h : setup.lines ≤ k / setup.bytesPerLine horizontal + top) (hk : k ≤ k') :
    setup.wanted horizontal top k' = false := by
  have hdiv : k / setup.bytesPerLine horizontal ≤ k' / setup.bytesPerLine horizontal :=
    Nat.div_le_div_right hk
  simp only [ScanSetup.wanted, Bool.and_eq_false_iff, decide_eq_false_iff_not]
  right
  omega

theorem blockRest_past {top k : Nat}
    (h : setup.lines ≤ k / setup.bytesPerLine b.horizontal + top) :
    blockRest setup b top k = [] :=
  picked_none fun d _ => wanted_past h (Nat.le_add_right k d)

/-! ### Within a block -/

/-- The bytes of block `b` are read.  Behind the last line of the image it does not matter what
    the buffer holds. -/
structure InBlock (setup : ScanSetup) (b : Block) (dev : Device) : Prop where
  ok : dev.Ok
  exact : dev.blocklen = dev.source.length
  vertical : dev.vertical = b.vertical
  horizontal : dev.horizontal = b.horizontal
  bytesPerLine : dev.bytesPerLine = setup.bytesPerLine b.horizontal
  place : setup.lines ≤ dev.dataindex / setup.bytesPerLine b.horizontal + dev.yOff ∨
    dev.dataindex ≤ b.vertical * setup.bytesPerLine b.horizontal ∧
      dev.content ++ dev.source = b.data.drop (setup.base b.horizontal dev.dataindex)

theorem InBlock.filled (h : InBlock setup b dev) (hfilled : Filled dev dev') :
    InBlock setup b dev' where
  ok := hfilled.ok
  exact := hfilled.exact h.exact
  vertical := by rw [hfilled.same]; exact h.vertical
  horizontal := by rw [hfilled.same]; exact h.horizontal
  bytesPerLine := by rw [hfilled.same]; exact h.bytesPerLine
  place := by
    rw [hfilled.stream]
    rw [hfilled.same]
    exact h.place

theorem content_getElem? {j : Nat} (h : j < dev.datalen) :
    dev.content[j]? = some (dev.data ((dev.dataoff + j) % DATASIZE)) := getElem?_ring h

/-- A byte in the buffer is a byte of the block. -/
theorem byte_of_content (h : dev.content ++ dev.source = b.data.drop (setup.base b.horizontal
    dev.dataindex)) {j : Nat} (hj : j < dev.datalen) :
    dev.data ((dev.dataoff + j) % DATASIZE)
      = b.data.getD (setup.base b.horizontal dev.dataindex + j) 0 := by
  have hget : b.data[setup.base b.horizontal dev.dataindex + j]?
      = some (dev.data ((dev.dataoff + j) % DATASIZE)) := by
    rw [← List.getElem?_drop, ← h, List.getElem?_append_left (by rwa [Device.content, length_ring]),
      content_getElem? hj]
  rw [List.getD_eq_getElem?_getD, hget]
  rfl

section Copied

variable (h : InBlock setup b dev)
include h

theorem InBlock.mixWanted_eq (hmixes : setup.mixes = true) (j : Nat) :
    dev.mixWanted setup j = setup.wanted b.horizontal dev.yOff (dev.dataindex + j) := by
  have hdiv : dev.dataindex / setup.bytesPerLine b.horizontal
      ≤ (dev.dataindex + j) / setup.bytesPerLine b.horizontal :=
    Nat.div_le_div_right (Nat.le_add_right _ _)
  rw [Device.mixWanted, ScanSetup.wanted]
  rw [h.bytesPerLine, Nat.sub_add_cancel hdiv, paraBytesPerLine_of_mixes hmixes]
  congr 1
  rw [decide_eq_decide, Nat.div_lt_iff_lt_mul (by decide)]

theorem InBlock.plainWanted_eq (j : Nat) :
    dev.plainWanted setup j = setup.wanted b.horizontal dev.yOff (dev.dataindex + j) := by
  rw [Device.plainWanted, ScanSetup.wanted]
  rw [h.bytesPerLine]

/-- Behind the last line of the image nothing is copied. -/
theorem InBlock.copied_past
    (hpast : setup.lines ≤ dev.dataindex / setup.bytesPerLine b.horizontal + dev.yOff)
    (maxlen : Nat) : (copyTrim setup dev maxlen).out = [] ∧
      dev.dataindex ≤ (copyTrim setup dev maxlen).dataindex := by
  rw [copyTrim]
  split
  · rename_i hmixes
    obtain ⟨i, -, hrun, -⟩ := copyMixBandsTrim_eq setup dev maxlen
    rw [hrun]
    refine ⟨picked_none fun d _ => ?_, Nat.le_add_right _ _⟩
    rw [h.mixWanted_eq hmixes]
    exact wanted_past hpast (Nat.le_add_right _ _)
  · obtain ⟨i, -, hrun, -⟩ := copyPlainTrim_eq setup dev maxlen
    rw [hrun]
    refine ⟨picked_none fun d _ => ?_, Nat.le_add_right _ _⟩
    rw [h.plainWanted_eq]
    exact wanted_past hpast (Nat.le_add_right _ _)

/-- What is copied of a block, where the index is then, and where the buffer begins. -/
structure CopiedOf (setup : ScanSetup) (b : Block) (dev : Device) (r : Copied) : Prop where
  rest : r.out ++ blockRest setup b dev.yOff r.dataindex
    = blockRest setup b dev.yOff dev.dataindex
  le : dev.dataindex ≤ r.dataindex
  index_le : r.dataindex ≤ b.vertical * setup.bytesPerLine b.horizontal
  base : setup.base b.horizontal dev.dataindex + r.clrlen = setup.base b.horizontal r.dataindex

theorem InBlock.copied_plain (hmixes : setup.mixes = false)
    (hindex : dev.dataindex ≤ b.vertical * setup.bytesPerLine b.horizontal)
    (hdata : dev.content ++ dev.source = b.data.drop (setup.base b.horizontal dev.dataindex))
    (hpos : 0 < setup.bytesPerLine b.horizontal) (maxlen : Nat) :
    CopiedOf setup b dev (copyTrim setup dev maxlen) := by
  obtain ⟨i, hi, hrun, -, hall, -⟩ := copyPlainTrim_eq setup dev maxlen
  have hbase : ∀ k, setup.base b.horizontal k = k := by
    intro k
    rw [ScanSetup.base, hmixes]
    rfl
  have horigin : ∀ k, setup.origin b.horizontal k = k := by
    intro k
    rw [ScanSetup.origin, hmixes]
    rfl
  have hend : dev.dataindex + i ≤ b.vertical * setup.bytesPerLine b.horizontal := by
    rcases Nat.eq_zero_or_pos i with rfl | hipos
    · exact hindex
    · have := hall (i - 1) (by omega)
      rw [h.bytesPerLine, h.vertical, Nat.div_lt_iff_lt_mul hpos] at this
      omega
  have hpicked : picked dev.plainByte (dev.plainWanted setup) 0 i
      = picked (fun k => b.data.getD (setup.origin b.horizontal k) 0)
        (setup.wanted b.horizontal dev.yOff) dev.dataindex i := by
    apply picked_congr
    intro d hd
    rw [Nat.zero_add]
    refine ⟨h.plainWanted_eq d, fun _ => ?_⟩
    rw [Device.plainByte, byte_of_content hdata (by omega), hbase, horigin]
  rw [copyTrim, if_neg (by rw [hmixes]; decide), hrun]
  refine ⟨?_, Nat.le_add_right _ _, hend, by rw [hbase, hbase]⟩
  obtain ⟨n, hn⟩ := Nat.exists_eq_add_of_le hend
  dsimp only
  rw [hpicked, blockRest, blockRest, hn, Nat.add_sub_cancel_left, Nat.add_assoc,
    Nat.add_sub_cancel_left, picked_append]

theorem InBlock.copied_mix (hb : b.Exact setup) (hmixes : setup.mixes = true)
    (hindex : dev.dataindex ≤ b.vertical * setup.bytesPerLine b.horizontal)
    (hdata : dev.content ++ dev.source = b.data.drop (setup.base b.horizontal dev.dataindex))
    (maxlen : Nat) : CopiedOf setup b dev (copyTrim setup dev maxlen) := by
  obtain ⟨i, hi, hrun, -⟩ := copyMixBandsTrim_eq setup dev maxlen
  have hwidth := h.bytesPerLine
  have hthree := bytesPerLine_of_mixes hmixes b.horizontal
  have hpos := hb.width_pos
  have hpadding := hb.padding_lt hmixes
  have hlen := congrArg List.length hdata
  have hbase : ∀ k, setup.base b.horizontal k
      = k / setup.bytesPerLine b.horizontal * setup.bytesPerLine b.horizontal := by
    intro k
    rw [ScanSetup.base, hmixes]
    rfl
  have horigin : ∀ k, setup.origin b.horizontal k
      = k / setup.bytesPerLine b.horizontal * setup.bytesPerLine b.horizontal
        + (k % 3 * b.horizontal + k % setup.bytesPerLine b.horizontal / 3) := by
    intro k
    rw [ScanSetup.origin, hmixes]
    rfl
  rw [Device.havelen, hwidth] at hi
  rw [List.length_append, List.length_drop, Device.content, length_ring, hb.length_data,
    hbase] at hlen
  rw [hbase] at hdata
  rw [hwidth] at hrun
  have hmixByte : ∀ j, dev.mixByte j = dev.data ((dev.dataoff + ((dev.dataindex + j) % 3
      * b.horizontal + (dev.dataindex + j) % setup.bytesPerLine b.horizontal / 3
      + ((dev.dataindex + j) / setup.bytesPerLine b.horizontal
        - dev.dataindex / setup.bytesPerLine b.horizontal) * setup.bytesPerLine b.horizontal))
      % DATASIZE) := by
    intro j
    rw [Device.mixByte]
    rw [hwidth, h.horizontal]
    congr 2
    omega
  have hbyte := fun j hj => byte_of_content (j := j) (by rw [hbase]; exact hdata) hj
  simp only [hbase] at hbyte
  -- lines, counted in the block
  generalize hB : setup.bytesPerLine b.horizontal = B at *
  have hk := Nat.div_add_mod dev.dataindex B
  rw [Nat.mul_comm] at hk
  have hlines : dev.dataindex / B + dev.datalen / B ≤ b.vertical := by
    have hdiv := Nat.div_mul_le_self dev.datalen B
    have hlt : (dev.dataindex / B + dev.datalen / B) * B < (b.vertical + 1) * B := by
      rw [Nat.add_mul, Nat.succ_mul]
      omega
    exact Nat.lt_succ_iff.mp (Nat.lt_of_mul_lt_mul_right hlt)
  have hend : i = 0 ∨ dev.dataindex + i ≤ (dev.dataindex / B + dev.datalen / B) * B := by
    rw [Nat.add_mul]
    omega
  have hpicked : picked dev.mixByte (dev.mixWanted setup) 0 i
      = picked (fun k => b.data.getD (setup.origin b.horizontal k) 0)
        (setup.wanted b.horizontal dev.yOff) dev.dataindex i := by
    apply picked_congr
    intro d hd
    rw [Nat.zero_add]
    refine ⟨h.mixWanted_eq hmixes d, fun _ => ?_⟩
    have hrow : (dev.dataindex + d) / B < dev.dataindex / B + dev.datalen / B := by
      rw [Nat.div_lt_iff_lt_mul hpos]
      omega
    have hdiv : dev.dataindex / B ≤ (dev.dataindex + d) / B :=
      Nat.div_le_div_right (Nat.le_add_right _ _)
    have hx : (dev.dataindex + d) % B / 3 < b.horizontal := by
      rw [Nat.div_lt_iff_lt_mul (by decide), ← hthree]
      exact Nat.mod_lt _ hpos
    have hband : (dev.dataindex + d) % 3 * b.horizontal ≤ 2 * b.horizontal :=
      Nat.mul_le_mul_right _ (by omega)
    have hplace : ((dev.dataindex + d) / B - dev.dataindex / B) * B + B ≤ dev.datalen := by
      rw [← Nat.succ_mul]
      refine (Nat.mul_le_mul_right B ?_).trans (Nat.div_mul_le_self dev.datalen B)
      omega
    rw [hmixByte, hbyte _ (by omega), horigin]
    congr 1
    have hsum : dev.dataindex / B * B + ((dev.dataindex + d) / B - dev.dataindex / B) * B
        = (dev.dataindex + d) / B * B := by
      rw [← Nat.add_mul, Nat.add_sub_cancel' hdiv]
    omega
  have hle : dev.dataindex + i ≤ b.vertical * B := by
    rcases hend with rfl | hend
    · exact hindex
    · exact hend.trans (Nat.mul_le_mul_right B hlines)
  rw [copyTrim, if_pos hmixes, hrun]
  refine ⟨?_, Nat.le_add_right _ _, by rw [hB]; exact hle, ?_⟩
  · obtain ⟨n, hn⟩ := Nat.exists_eq_add_of_le hle
    dsimp only
    rw [hpicked, blockRest, blockRest, hB, hn, Nat.add_sub_cancel_left, Nat.add_assoc,
      Nat.add_sub_cancel_left, picked_append]
  · rw [hbase, hbase, ← Nat.add_mul, Nat.add_sub_cancel'
      (Nat.div_le_div_right (Nat.le_add_right _ _))]

end Copied

/-! ### A turn -/

/-- What is done with the buffer after copying. -/
theorem clear_cases (setup : ScanSetup) (dev : Device) (r : Copied) :
    dev.clear setup r = { dev with
      dataindex := r.dataindex, datalen := (dev.clear setup r).datalen
      dataoff := (dev.clear setup r).dataoff
      totalOutSize := dev.totalOutSize + r.out.length } ∧
    (setup.lines ≤ r.dataindex / dev.bytesPerLine + dev.yOff ∧
        (dev.clear setup r).datalen = 0 ∨
      ¬ setup.lines ≤ r.dataindex / dev.bytesPerLine + dev.yOff ∧
        (dev.clear setup r).datalen = dev.datalen - r.clrlen ∧
        (dev.clear setup r).dataoff = (dev.dataoff + r.clrlen) % DATASIZE) := by
  rw [Device.clear]
  dsimp only
  split
  · rename_i hpast
    exact ⟨rfl, .inl ⟨hpast, rfl⟩⟩
  · rename_i hmore
    exact ⟨rfl, .inr ⟨hmore, rfl, rfl⟩⟩

/-- What a turn of the outer loop keeps. -/
structure Turned (setup : ScanSetup) (b : Block) (dev dev' : Device) (out : List SaneByte) :
    Prop where
  inBlock : InBlock setup b dev'
  rest : out ++ blockRest setup b dev'.yOff dev'.dataindex
    = blockRest setup b dev.yOff dev.dataindex
  same : dev' = { dev with
    data := dev'.data, datalen := dev'.datalen, dataoff := dev'.dataoff
    dataindex := dev'.dataindex, blocklen := dev'.blocklen, source := dev'.source
    totalOutSize := dev'.totalOutSize }
  totalOutSize : dev'.totalOutSize = dev.totalOutSize + out.length
  load_le : dev'.load ≤ dev.load
  blocklen_le : dev'.blocklen ≤ dev.blocklen

theorem Turned.refl (h : InBlock setup b dev) : Turned setup b dev dev [] :=
  ⟨h, rfl, rfl, rfl, le_rfl, le_rfl⟩

theorem Turned.trans {dev'' : Device} {out out' : List SaneByte} (h : Turned setup b dev dev' out)
    (h' : Turned setup b dev' dev'' out') : Turned setup b dev dev'' (out ++ out') where
  inBlock := h'.inBlock
  rest := by rw [List.append_assoc, h'.rest, h.rest]
  same := by rw [h'.same, h.same]
  totalOutSize := by rw [h'.totalOutSize, h.totalOutSize, List.length_append, Nat.add_assoc]
  load_le := h'.load_le.trans h.load_le
  blocklen_le := h'.blocklen_le.trans h.blocklen_le

theorem Turned.filled (h : InBlock setup b dev) (hfilled : Filled dev dev') :
    Turned setup b dev dev' [] where
  inBlock := h.filled hfilled
  rest := by rw [hfilled.same]; rfl
  same := by rw [hfilled.same]
  totalOutSize := by rw [hfilled.same]; rfl
  load_le := hfilled.load.le
  blocklen_le := hfilled.blocklen_le

theorem InBlock.turned (hb : b.Exact setup) (h : InBlock setup b dev) (maxlen : Nat) :
    Turned setup b dev (turn setup dev maxlen) (copyTrim setup dev maxlen).out := by
  obtain ⟨hsame, hcases⟩ := clear_cases setup dev (copyTrim setup dev maxlen)
  have hle := (copyTrim_le setup dev maxlen).1
  have hlen := datalen_clear_le setup dev (copyTrim setup dev maxlen)
  have hok := clear_ok setup h.ok (copyTrim setup dev maxlen)
  have hblocklen := blocklen_clear setup dev (copyTrim setup dev maxlen)
  have hwidth := h.bytesPerLine
  have hrest : (copyTrim setup dev maxlen).out ++ blockRest setup b dev.yOff
      (copyTrim setup dev maxlen).dataindex = blockRest setup b dev.yOff dev.dataindex ∧
      (setup.lines ≤ (copyTrim setup dev maxlen).dataindex / setup.bytesPerLine b.horizontal
          + dev.yOff ∨ CopiedOf setup b dev (copyTrim setup dev maxlen) ∧
        dev.content ++ dev.source = b.data.drop (setup.base b.horizontal dev.dataindex)) := by
    rcases h.place with hpast | ⟨hindex, hdata⟩
    · obtain ⟨hnone, hindex⟩ := h.copied_past hpast maxlen
      have hpast' := hpast.trans (Nat.add_le_add_right (Nat.div_le_div_right
        (c := setup.bytesPerLine b.horizontal) hindex) dev.yOff)
      rw [hnone, blockRest_past hpast, blockRest_past hpast']
      exact ⟨rfl, .inl hpast'⟩
    · have hcopied : CopiedOf setup b dev (copyTrim setup dev maxlen) := by
        cases hmixes : setup.mixes with
        | true => exact h.copied_mix hb hmixes hindex hdata maxlen
        | false => exact h.copied_plain hmixes hindex hdata hb.width_pos maxlen
      exact ⟨hcopied.rest, .inr ⟨hcopied, hdata⟩⟩
  rw [turn]
  generalize copyTrim setup dev maxlen = r at *
  generalize dev.clear setup r = dev' at *
  have hblock : InBlock setup b dev' := by
    refine ⟨hok, ?_, ?_, ?_, ?_, ?_⟩
    · rw [hsame]
      exact h.exact
    · rw [hsame]
      exact h.vertical
    · rw [hsame]
      exact h.horizontal
    · rw [hsame]
      exact h.bytesPerLine
    · have hindex : dev'.dataindex = r.dataindex := by rw [hsame]
      have hyOff : dev'.yOff = dev.yOff := by rw [hsame]
      have hsource : dev'.source = dev.source := by rw [hsame]
      have hmem : dev'.data = dev.data := by rw [hsame]
      rw [hindex, hyOff, hsource]
      rw [hwidth] at hcases
      rcases hcases with ⟨hpast, -⟩ | ⟨hmore, hdatalen, hdataoff⟩
      · exact .inl hpast
      · right
        obtain ⟨hcopied, hdata⟩ := hrest.2.resolve_left hmore
        refine ⟨hcopied.index_le, ?_⟩
        rw [Device.content, hmem, hdatalen, hdataoff, ← drop_ring hle, ← hcopied.base,
          ← List.drop_drop, ← hdata, List.drop_append_of_le_length (by
            rw [Device.content, length_ring]
            exact hle)]
        rfl
  refine ⟨hblock, ?_, ?_, ?_, ?_, hblocklen.le⟩
  · rw [hsame]
    exact hrest.1
  · rw [hsame]
  · rw [hsame]
  · rw [Device.load, Device.load]
    omega

/-- If there is more than padding in the buffer, and a whole line if bands are mixed, something
    can be copied. -/
theorem InBlock.not_idle (hb : b.Exact setup) (h : InBlock setup b dev)
    (hmore : dev.dataindex / setup.bytesPerLine b.horizontal + dev.yOff < setup.lines)
    (hdata : PADDING_SIZE < dev.datalen)
    (hline : setup.mixes = true → dev.blocklen ≠ 0 →
      setup.bytesPerLine b.horizontal ≤ dev.datalen) : ¬ dev.Idle setup := by
  have hpadding := hb.padding_le
  have hlines := hb.lines_le
  have hpos := hb.width_pos
  obtain ⟨hindex, hstream⟩ := h.place.resolve_left (Nat.not_le.mpr hmore)
  have hlength := congrArg List.length hstream
  rw [List.length_append, List.length_drop, Device.content, length_ring, ← h.exact,
    hb.length_data] at hlength
  rw [Device.Idle]
  split
  · rename_i hmixes
    rw [h.bytesPerLine, Nat.not_lt]
    by_cases hblock : dev.blocklen = 0
    · -- the lines that are left are all in the buffer
      have hbase : setup.base b.horizontal dev.dataindex = dev.dataindex
          / setup.bytesPerLine b.horizontal * setup.bytesPerLine b.horizontal := if_pos hmixes
      have hlt : dev.dataindex / setup.bytesPerLine b.horizontal < b.vertical := by
        by_contra hge
        have := Nat.mul_le_mul_right (setup.bytesPerLine b.horizontal) (Nat.le_of_not_lt hge)
        omega
      have hle := Nat.mul_le_mul_right (setup.bytesPerLine b.horizontal)
        (show dev.dataindex / setup.bytesPerLine b.horizontal + 1 ≤ b.vertical from hlt)
      rw [Nat.succ_mul] at hle
      omega
    · exact hline hmixes hblock
  · rename_i hmixes
    have hbase : setup.base b.horizontal dev.dataindex = dev.dataindex := if_neg hmixes
    rw [h.vertical, h.bytesPerLine, Nat.le_div_iff_mul_le hpos]
    omega

theorem InBlock.progress (hb : b.Exact setup) (h : InBlock setup b dev) (hmax : 0 < maxlen)
    (hdata : PADDING_SIZE < dev.datalen)
    (hline : setup.mixes = true → dev.blocklen ≠ 0 →
      setup.bytesPerLine b.horizontal ≤ dev.datalen) :
    (copyTrim setup dev maxlen).out ≠ [] ∨ (turn setup dev maxlen).datalen < dev.datalen := by
  by_cases hpast : setup.lines ≤ dev.dataindex / setup.bytesPerLine b.horizontal + dev.yOff
  · -- the buffer is emptied
    right
    obtain ⟨-, hindex⟩ := h.copied_past hpast maxlen
    obtain ⟨-, ⟨-, hzero⟩ | ⟨hmore, -⟩⟩ :=
      clear_cases setup dev (copyTrim setup dev maxlen)
    · rw [turn]
      omega
    · rw [h.bytesPerLine] at hmore
      exact absurd (hpast.trans (Nat.add_le_add_right (Nat.div_le_div_right hindex) _)) hmore
  · refine turn_of_not_idle ?_ hmax (h.not_idle hb (Nat.not_le.mp hpast) hdata hline)
    rw [h.bytesPerLine]
    exact hb.width_pos

end SaneBackends.XeroxMfp
