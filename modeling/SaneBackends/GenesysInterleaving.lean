import SaneBackends.GenesysLines

/-!
# Segments that are read back to back, and lines that are left out

The groups that `genesys_fill_segmented_buffer` stores are the bytes of the line with the samples
of all segments in turn, at each of the three depths; `genesys_fill_line_interp_buffer` stores the
bytes of the lines that are kept.  For requests of whole groups what is delivered does not depend
on how they cut the stream.
-/

namespace SaneBackends.Genesys

open LabelledRun Pieces BitPacking BitPrefixes

/-! ### Samples in turn -/

variable {k c n : Nat} {segs : Nat → List SaneByte}

theorem bitAt_byte (bs : List SaneByte) (x : Nat) {i : Nat} (hi : i < 8) :
    bitAt bs (8 * x + i) = (bs.getD x 0).getMsbD i := by
  rw [bitAt, Nat.mul_add_div (by decide), Nat.div_eq_of_lt hi, Nat.mul_add_mod,
    Nat.mod_eq_of_lt hi, Nat.add_zero]

theorem div_mod_turn {x y : Nat} (hy : y < k) (c : Nat) (hx : x = c * k + y) :
    x % k = y ∧ x / k = c := by
  subst hx
  constructor
  · rw [Nat.mul_comm, Nat.mul_add_mod, Nat.mod_eq_of_lt hy]
  · rw [Nat.mul_comm, Nat.mul_add_div (by omega), Nat.div_eq_of_lt hy, Nat.add_zero]

theorem interleavedByte_eight (hn : n < k) :
    interleavedByte 8 k segs (c * k + n) = (segs n).getD c 0 := by
  rw [← wordOf_getMsbD ((segs n).getD c 0), interleavedByte]
  apply wordOf_congr
  intro i hi
  have hsample : (8 * (c * k + n) + i) / 8 = c * k + n := by omega
  have hbit : (8 * (c * k + n) + i) % 8 = i := by omega
  obtain ⟨hmod, hdiv⟩ := div_mod_turn hn c rfl
  rw [hsample, hbit, hmod, hdiv, Nat.mul_comm, bitAt_byte _ _ hi]

theorem interleavedByte_sixteen (hn : n < k) {h : Nat} (hh : h < 2) :
    interleavedByte 16 k segs (c * (2 * k) + (2 * n + h)) = (segs n).getD (2 * c + h) 0 := by
  rw [← wordOf_getMsbD ((segs n).getD (2 * c + h) 0), interleavedByte]
  apply wordOf_congr
  intro i hi
  have hj : c * (2 * k) = 2 * (c * k) := Nat.mul_left_comm c 2 k
  have hsample : (8 * (c * (2 * k) + (2 * n + h)) + i) / 16 = c * k + n := by omega
  have hbit : (8 * (c * (2 * k) + (2 * n + h)) + i) % 16 = 8 * h + i := by omega
  obtain ⟨hmod, hdiv⟩ := div_mod_turn hn c rfl
  have hplace : c * 16 + (8 * h + i) = 8 * (2 * c + h) + i := by omega
  rw [hsample, hbit, hmod, hdiv, hplace, bitAt_byte _ _ hi]

theorem interleavedByte_one {m : Nat} (hm : m < k) :
    interleavedByte 1 k segs (c * k + m) =
      wordOf 8 fun t => ((segs ((m * 8 + t) % k)).getD c 0).getMsbD ((m * 8 + t) / k) := by
  apply wordOf_congr
  intro t ht
  have hk : 0 < k := by omega
  have hj : 8 * (c * k + m) + t = (m * 8 + t) + k * (8 * c) := by
    rw [Nat.mul_add, Nat.mul_left_comm, Nat.mul_comm k]
    have hck : 8 * (c * k) = 8 * c * k := (Nat.mul_assoc 8 c k).symm
    rw [Nat.mul_left_comm c 8 k, hck]
    omega
  have hlt : (m * 8 + t) / k < 8 := by
    rw [Nat.div_lt_iff_lt_mul hk]
    omega
  rw [Nat.div_one, Nat.mod_one, Nat.mul_one, Nat.add_zero, hj, Nat.add_mul_mod_self_left,
    Nat.add_mul_div_left _ _ hk, Nat.add_comm _ (8 * c), bitAt_byte _ _ hlt]

/-! ### Groups -/

variable {dev : GenesysDevice} {usb : Nat → BulkRead} {counted l : Nat} {f : Filling}

theorem and_bit_ne_zero (b : SaneByte) {i : Nat} (hi : i < 8) :
    (b &&& (128#8 >>> i) ≠ 0) ↔ b.getMsbD i = true := by
  have hall : ∀ (b : BitVec 8) (i : Fin 8),
      (b &&& (128#8 >>> i.val) ≠ 0) ↔ b.getMsbD i.val = true := by
    decide +kernel
  exact hall b ⟨i, hi⟩

/-- The bits of all segments are shifted in one after the other. -/
theorem interleaveBits_eq (dev : GenesysDevice) (hdvd : dev.segnb ∣ 8) :
    dev.interleaveBits = (List.range dev.segnb).map fun m => wordOf 8 fun t =>
      (dev.segmentByte ((m * 8 + t) % dev.segnb) 0).getMsbD ((m * 8 + t) / dev.segnb) := by
  have hpos : 0 < dev.segnb := Nat.pos_of_dvd_of_pos hdvd (by decide)
  obtain ⟨d, hd⟩ := hdvd
  rw [← foldl_pack (w := 8)
    (fun j => (dev.segmentByte (j % dev.segnb) 0).getMsbD (j / dev.segnb)) dev.segnb,
    Nat.mul_comm, ← foldl_range_mul, GenesysDevice.interleaveBits]
  apply List.foldl_ext
  intro group i hi
  apply List.foldl_ext
  intro group n hn
  have hi : i < 8 := List.mem_range.mp hi
  have hn : n < dev.segnb := List.mem_range.mp hn
  obtain ⟨hmod, hdiv⟩ := div_mod_turn hn i rfl
  -- no turn of the inner loop crosses a byte
  have hbyte : i * dev.segnb / 8 = (i * dev.segnb + n) / 8 := by
    rw [hd, ← Nat.div_div_eq_div_mul, ← Nat.div_div_eq_div_mul, hdiv, Nat.mul_div_cancel _ hpos]
  rw [hbyte]
  congr 1
  funext b
  rw [hmod, hdiv, shiftIn]
  by_cases hbit : (dev.segmentByte n 0).getMsbD i = true
  · rw [if_pos ((and_bit_ne_zero _ hi).mpr hbit), if_pos hbit]
  · rw [if_neg (mt (and_bit_ne_zero _ hi).mp hbit), if_neg hbit]

/-- A sensor of several segments: lines of any of the three depths, the segments inside of
    them. -/
structure GenesysDevice.Segmented (dev : GenesysDevice) : Prop extends dev.HasLines where
  doubleXres : dev.doubleXres = false
  depth : dev.depth = 1 ∨ dev.depth = 8 ∨ dev.depth = 16
  segnb : 1 < dev.segnb
  whole : dev.depth = 16 → 2 ∣ dev.len
  inside : ∀ n < dev.segnb, dev.skip + dev.dist * dev.order n + dev.len ≤ dev.bpl

/-- How many bytes of a segment make a group. -/
def GenesysDevice.sampleBytes (dev : GenesysDevice) : Nat := if dev.depth = 16 then 2 else 1

/-- How many groups make a line. -/
def GenesysDevice.groups (dev : GenesysDevice) : Nat := dev.len / dev.sampleBytes

/-- Group `p` of a scan. -/
def GenesysDevice.group (dev : GenesysDevice) (usb : Nat → BulkRead) (p : Nat) :
    List SaneByte :=
  (List.range (dev.sampleBytes * dev.segnb)).map fun i =>
    interleavedByte dev.depth dev.segnb (dev.segment usb (p / dev.groups))
      (p % dev.groups * (dev.sampleBytes * dev.segnb) + i)

theorem GenesysDevice.Segmented.len_eq (h : dev.Segmented) :
    dev.len = dev.groups * dev.sampleBytes := by
  rw [GenesysDevice.groups, GenesysDevice.sampleBytes]
  split
  · rename_i h16
    exact (Nat.div_mul_cancel (h.whole h16)).symm
  · rw [Nat.div_one, Nat.mul_one]

theorem GenesysDevice.sampleBytes_pos (dev : GenesysDevice) : 0 < dev.sampleBytes := by
  rw [GenesysDevice.sampleBytes]
  split <;> decide

theorem GenesysDevice.Segmented.groups_pos (h : dev.Segmented) : 0 < dev.groups := by
  have hlen := h.len_pos
  rw [h.len_eq] at hlen
  exact Nat.pos_of_mul_pos_right hlen

/-- The groups of a line are the line. -/
theorem GenesysDevice.Segmented.upTo_group (h : dev.Segmented) (usb : Nat → BulkRead) (n : Nat) :
    upTo (dev.group usb) (n * dev.groups) = upTo (dev.interleavedLine usb) n := by
  rw [upTo_mul]
  apply upTo_congr
  intro l _
  have hgroup : ∀ c < dev.groups, dev.group usb (l * dev.groups + c) =
      (List.range (dev.sampleBytes * dev.segnb)).map fun i =>
        interleavedByte dev.depth dev.segnb (dev.segment usb l)
          (c * (dev.sampleBytes * dev.segnb) + i) := by
    intro c hc
    obtain ⟨hmod, hdiv⟩ := div_mod_turn hc l rfl
    rw [GenesysDevice.group, hmod, hdiv]
  rw [upTo_congr hgroup, upTo_rows, GenesysDevice.interleavedLine, h.len_eq, Nat.mul_assoc]

/-- The byte of a segment under the cursor. -/
theorem CursorAt.segmentByte_eq (hseg : dev.Segmented) (h : CursorAt dev usb counted l c f)
    (hn : n < dev.segnb) {i : Nat} (hi : c + i < dev.len) :
    f.dev.segmentByte n i = (dev.segment usb l n).getD (c + i) 0 := by
  have hinside := hseg.inside n hn
  have hplace : dev.skip + dev.dist * dev.order n + (c + i) < dev.bpl := by omega
  have hbyte := h.byte hseg.toHasLines hplace
  have hindex : c + dev.skip + dev.dist * dev.order n + f.dev.oePos + i =
      f.dev.oePos + (dev.skip + dev.dist * dev.order n + (c + i)) := by omega
  rw [GenesysDevice.segmentByte, h.cur, h.same.skip, h.same.dist, h.same.order, hindex, hbyte,
    GenesysDevice.segment, List.getD_eq_getElem?_getD, List.getElem?_take, if_pos hi,
    List.getElem?_drop, GenesysDevice.rawLine, List.getElem?_map, List.getElem?_range hplace]
  rfl

/-- What is stored for a position of the segments is the next group of the line. -/
theorem CursorAt.segmentGroup_eq (hseg : dev.Segmented) {q : Nat} (hq : q < dev.groups)
    (h : CursorAt dev usb counted l (q * dev.sampleBytes) f) :
    f.dev.segmentGroup = (dev.group usb (l * dev.groups + q), dev.sampleBytes) := by
  have hlt : q * dev.sampleBytes + dev.sampleBytes ≤ dev.len := by
    rw [hseg.len_eq, ← Nat.succ_mul]
    exact Nat.mul_le_mul_right _ hq
  have hbyte : ∀ n < dev.segnb, ∀ i < dev.sampleBytes,
      f.dev.segmentByte n i = (dev.segment usb l n).getD (q * dev.sampleBytes + i) 0 :=
    fun n hn i hi => h.segmentByte_eq hseg hn (by omega)
  obtain ⟨hmod, hdiv⟩ := div_mod_turn hq l rfl
  rw [GenesysDevice.segmentGroup, GenesysDevice.group, hmod, hdiv]
  rcases hseg.depth with hd | hd | hd
  · have hw : dev.sampleBytes = 1 := by rw [GenesysDevice.sampleBytes, hd]; rfl
    rw [hw] at hbyte ⊢
    rw [if_pos (h.same.keeps.depth.trans hd), hd, Nat.one_mul,
      interleaveBits_eq _ (h.same.keeps.segnb ▸ dev.segnb_dvd hseg.segnb), h.same.keeps.segnb]
    congr 1
    apply List.map_congr_left
    intro m hm
    rw [interleavedByte_one (List.mem_range.mp hm)]
    apply wordOf_congr
    intro t _
    rw [hbyte _ (Nat.mod_lt _ (Nat.lt_of_succ_lt hseg.segnb)) 0 Nat.one_pos, Nat.mul_one,
      Nat.add_zero]
  · have hw : dev.sampleBytes = 1 := by rw [GenesysDevice.sampleBytes, hd]; rfl
    have hd' : f.dev.depth = 8 := h.same.keeps.depth.trans hd
    rw [hw] at hbyte ⊢
    rw [if_neg (by rw [hd']; decide), if_pos hd', hd, Nat.one_mul, h.same.keeps.segnb]
    congr 1
    apply List.map_congr_left
    intro n hn
    have hn : n < dev.segnb := List.mem_range.mp hn
    rw [interleavedByte_eight hn, hbyte n hn 0 Nat.one_pos, Nat.mul_one, Nat.add_zero]
  · have hw : dev.sampleBytes = 2 := by rw [GenesysDevice.sampleBytes, hd]; rfl
    have hd' : f.dev.depth = 16 := h.same.keeps.depth.trans hd
    rw [hw] at hbyte ⊢
    rw [if_neg (by rw [hd']; decide), if_neg (by rw [hd']; decide), hd, h.same.keeps.segnb]
    congr 1
    -- a sample of each segment is a row of two bytes
    rw [Nat.mul_comm 2 dev.segnb, ← upTo_rows]
    apply List.flatMap_congr
    intro n hn
    have hn : n < dev.segnb := List.mem_range.mp hn
    have hfirst := @interleavedByte_sixteen _ q _ (dev.segment usb l) hn 0 (by decide)
    have hsecond := @interleavedByte_sixteen _ q _ (dev.segment usb l) hn 1 (by decide)
    rw [Nat.mul_comm 2 dev.segnb, Nat.mul_comm 2 n, Nat.mul_comm 2 q] at hfirst hsecond
    rw [hbyte n hn 0 (by decide), hbyte n hn 1 (by decide), ← hfirst, ← hsecond]
    rfl

/-! ### The reader of segments -/

variable {size p : Nat}

/-- The inner loops store groups until the line or the request is at its end. -/
theorem segmentLoop_groups (size : Nat) (hseg : dev.Segmented) (turns : Nat) {q : Nat}
    (hq : q ≤ dev.groups) (h : CursorAt dev usb counted l (q * dev.sampleBytes) f) :
    ∃ n, q + n ≤ dev.groups ∧
      CursorAt dev usb counted l ((q + n) * dev.sampleBytes) (segmentLoop size turns f) ∧
      (segmentLoop size turns f).stored =
        f.stored ++ upTo (fun i => dev.group usb (l * dev.groups + q + i)) n ∧
      (0 < turns → q < dev.groups → f.stored.length < size → 0 < n) := by
  induction turns generalizing f q with
  | zero => exact ⟨0, hq, h, (List.append_nil _).symm, fun hpos => absurd hpos (by decide)⟩
  | succ turns ih =>
    have hcur : f.dev.cur < f.dev.len ↔ q < dev.groups := by
      rw [h.cur, h.same.len, hseg.len_eq]
      exact Nat.mul_lt_mul_right dev.sampleBytes_pos
    rw [segmentLoop]
    split
    · rename_i hgo
      have hlt : q < dev.groups := hcur.mp hgo.1
      have hgroup := h.segmentGroup_eq hseg hlt
      have hmoved := h.move (f.dev.cur + f.dev.segmentGroup.2) (f.stored ++ f.dev.segmentGroup.1)
      rw [hgroup, h.cur, ← Nat.succ_mul] at hmoved
      obtain ⟨n, hn, hat, hstored, -⟩ := ih hlt hmoved
      rw [hgroup, h.cur, ← Nat.succ_mul]
      refine ⟨n + 1, ?_, ?_, ?_, fun _ _ _ => Nat.succ_pos n⟩
      · omega
      · rw [Nat.add_comm n, ← Nat.add_assoc]
        exact hat
      · rw [hstored, Nat.add_comm n, upTo_add, List.append_assoc]
        simp only [upTo_one, Nat.succ_eq_add_one, Nat.add_assoc, Nat.add_zero]
    · rename_i hstop
      refine ⟨0, hq, h, (List.append_nil _).symm, fun _ hlt hsize => ?_⟩
      exact absurd ⟨hcur.mpr hlt, hsize⟩ hstop

/-- Moving on by groups of a line, from the end of it to the next one. -/
theorem div_mod_step {m p n : Nat} (hm : 0 < m) (hn : p % m + n ≤ m) :
    (p + n) / m = (if p % m + n = m then p / m + 1 else p / m) ∧
      (p + n) % m = (if p % m + n = m then 0 else p % m + n) := by
  have hp := Nat.div_add_mod p m
  by_cases hend : p % m + n = m
  · rw [if_pos hend, if_pos hend]
    have hsum : p + n = m * (p / m + 1) := by
      rw [Nat.mul_succ]
      omega
    rw [hsum, Nat.mul_div_cancel_left _ hm, Nat.mul_mod_right]
    exact ⟨rfl, rfl⟩
  · rw [if_neg hend, if_neg hend]
    have hsum : p + n = p / m * m + (p % m + n) := by
      rw [Nat.mul_comm]
      omega
    obtain ⟨hmod, hdiv⟩ := div_mod_turn (by omega : p % m + n < m) _ hsum
    exact ⟨hdiv, hmod⟩

theorem CursorAt.copySegments_eq (h : CursorAt dev usb counted l c f) (hseg : dev.Segmented)
    (size : Nat) : f.copySegments size = segmentLoop size (f.dev.len - f.dev.cur) f := by
  have hx : ¬ f.dev.doubleXres = true := by
    rw [h.same.keeps.doubleXres, hseg.doubleXres]
    decide
  rw [Filling.copySegments, if_neg hx, if_pos (h.same.keeps.depth ▸ hseg.depth)]

theorem storesPieces_segmented (hseg : dev.Segmented) (usb : Nat → BulkRead) :
    StoresPieces dev usb segmentedTurn (dev.group usb) fun p f =>
      CursorAt dev usb 0 (p / dev.groups) (p % dev.groups * dev.sampleBytes) f where
  empty := hseg.empty
  avail h := by
    rw [h.avail]
    exact hseg.oeSize_pos.ne'
  congr stored h := h.storing stored
  begins hgood := by
    rw [Nat.zero_div, Nat.zero_mod, Nat.zero_mul]
    exact cursorAt_start hseg.toHasLines hgood
  step := by
    intro size p f h hlt hgood
    have hq := Nat.mod_lt p hseg.groups_pos
    obtain ⟨n, hn, hat, hstored, hpos⟩ :=
      segmentLoop_groups size hseg (f.dev.len - f.dev.cur) hq.le h
    rw [segmentedTurn, h.copySegments_eq hseg] at hgood ⊢
    have hnext := hat.next hseg.toHasLines hgood
    have hend : (p % dev.groups + n) * dev.sampleBytes = dev.len ↔
        p % dev.groups + n = dev.groups := by
      rw [hseg.len_eq]
      exact Nat.mul_left_inj dev.sampleBytes_pos.ne'
    obtain ⟨hdiv, hmod⟩ := div_mod_step hseg.groups_pos hn
    refine ⟨n, ?_, ?_, ?_⟩
    · apply hpos _ hq hlt
      rw [h.cur, h.same.len, hseg.len_eq, ← Nat.sub_mul]
      exact Nat.mul_pos (by omega) dev.sampleBytes_pos
    · rw [hdiv, hmod]
      by_cases hfull : p % dev.groups + n = dev.groups
      · rw [if_pos hfull, if_pos hfull, Nat.zero_mul]
        rwa [if_pos (hend.mpr hfull), if_pos (hend.mpr hfull)] at hnext
      · rw [if_neg hfull, if_neg hfull]
        rwa [if_neg (mt hend.mp hfull), if_neg (mt hend.mp hfull)] at hnext
    · rw [(Filling.keeps_nextLine _ 0).2, hstored, Nat.mul_comm, Nat.div_add_mod]
  good := by
    intro size p f hall h
    have hq := Nat.mod_lt p hseg.groups_pos
    obtain ⟨n, -, hat, -, -⟩ :=
      segmentLoop_groups size hseg (f.dev.len - f.dev.cur) hq.le h
    rw [segmentedTurn, h.copySegments_eq hseg]
    exact hat.next_good hall
  endless := by
    apply exists_length_upTo
    intro m
    refine ⟨m, le_rfl, ?_⟩
    rw [GenesysDevice.group, Ne, List.map_eq_nil_iff, List.range_eq_nil]
    exact (Nat.mul_pos dev.sampleBytes_pos (Nat.lt_of_succ_lt hseg.segnb)).ne'

/-! ### The reader that leaves lines out -/

/-- A scan at more lines than are wanted. -/
structure GenesysDevice.Interpolated (dev : GenesysDevice) : Prop extends dev.HasLines where
  channels_pos : 0 < dev.channels
  lineInterp_pos : 0 < dev.lineInterp
  len_le : dev.len ≤ dev.bpl
  lineCount : dev.lineCount = 0

/-- Byte `p` of all lines, if its line is kept. -/
def GenesysDevice.keptByte (dev : GenesysDevice) (usb : Nat → BulkRead) (p : Nat) :
    List SaneByte :=
  if p / dev.len / dev.channels % dev.lineInterp = 0 then
    [dev.rawByte usb (p / dev.len * dev.bpl + p % dev.len)]
  else []

/-- The bytes of a line are the line. -/
theorem GenesysDevice.Interpolated.upTo_keptByte (h : dev.Interpolated) (usb : Nat → BulkRead)
    (n : Nat) : upTo (dev.keptByte usb) (n * dev.len) = upTo (dev.keptLine usb) n := by
  rw [upTo_mul]
  apply upTo_congr
  intro l _
  have hbyte : ∀ c < dev.len, dev.keptByte usb (l * dev.len + c) =
      if l / dev.channels % dev.lineInterp = 0 then [dev.rawByte usb (l * dev.bpl + c)]
      else [] := by
    intro c hc
    obtain ⟨hmod, hdiv⟩ := div_mod_turn hc l rfl
    rw [GenesysDevice.keptByte, hmod, hdiv]
  rw [upTo_congr hbyte, GenesysDevice.keptLine]
  split
  · rw [upTo_singleton, GenesysDevice.rawLine, ← List.map_take, List.take_range,
      Nat.min_eq_left h.len_le]
  · exact List.flatMap_eq_nil_iff.mpr fun _ _ => rfl

/-- A byte of the line is copied, or left out. -/
theorem CursorAt.copyInterp_eq (hi : dev.Interpolated) {p : Nat}
    (h : CursorAt dev usb 1 (p / dev.len) (p % dev.len) f) :
    CursorAt dev usb 1 (p / dev.len) (p % dev.len + 1) f.copyInterp ∧
      f.copyInterp.stored = f.stored ++ dev.keptByte usb p := by
  have hlt := Nat.mod_lt p hi.len_pos
  have hbyte := h.byte hi.toHasLines (hlt.trans_le hi.len_le)
  have hmoved := h.move (f.dev.cur + 1) f.copyInterp.stored
  rw [h.cur] at hmoved
  constructor
  · rw [← h.cur] at hmoved ⊢
    exact hmoved
  · rw [Filling.copyInterp, GenesysDevice.keptByte]
    dsimp only
    rw [h.lineCount, hi.lineCount, h.same.channels, h.same.lineInterp, h.cur, Nat.zero_add,
      Nat.one_mul, Nat.add_comm _ f.dev.oePos, hbyte]

theorem storesPieces_interp (hi : dev.Interpolated) (usb : Nat → BulkRead) :
    StoresPieces dev usb (fun _ => interpTurn) (dev.keptByte usb) fun p f =>
      CursorAt dev usb 1 (p / dev.len) (p % dev.len) f where
  empty := hi.empty
  avail h := by
    rw [h.avail]
    exact hi.oeSize_pos.ne'
  congr stored h := h.storing stored
  begins hgood := by
    rw [Nat.zero_div, Nat.zero_mod]
    exact cursorAt_start hi.toHasLines hgood
  step := by
    intro size p f h hlt hgood
    obtain ⟨hat, hstored⟩ := h.copyInterp_eq hi
    have hnext := hat.next hi.toHasLines hgood
    obtain ⟨hdiv, hmod⟩ := div_mod_step (n := 1) hi.len_pos (Nat.mod_lt p hi.len_pos)
    refine ⟨1, Nat.one_pos, ?_, ?_⟩
    · rw [hdiv, hmod]
      exact hnext
    · rw [interpTurn, (Filling.keeps_nextLine _ 1).2, hstored, upTo_one, Nat.add_zero]
  good hall h := (h.copyInterp_eq hi).1.next_good hall
  endless := by
    apply exists_length_upTo
    intro m
    -- a line number that is a multiple of both is kept
    refine ⟨m * (dev.channels * dev.lineInterp) * dev.len, ?_, ?_⟩
    · rw [Nat.mul_assoc]
      exact Nat.le_mul_of_pos_right m
        (Nat.mul_pos (Nat.mul_pos hi.channels_pos hi.lineInterp_pos) hi.len_pos)
    · have hkept : m * (dev.channels * dev.lineInterp) / dev.channels % dev.lineInterp = 0 := by
        rw [Nat.mul_left_comm, Nat.mul_div_cancel_left _ hi.channels_pos, Nat.mul_mod_left]
      rw [GenesysDevice.keptByte, Nat.mul_div_cancel _ hi.len_pos, if_pos hkept]
      exact List.cons_ne_nil _ _

/-! ### All requests together -/

/-- What `sizes` requests to a reader deliver, and that one more is answered. -/
structure Delivers (dev : GenesysDevice) (usb : Nat → BulkRead)
    (fill : GenesysDevice → (Nat → BulkRead) → Nat → Nat → Option SaneStatus × Filling)
    (lines : Nat → List SaneByte) (sizes : List Nat) (u : LineScan) : Prop where
  first : First lines sizes.sum u.delivered
  returns : ∀ size, ∃ turns st, (fill u.dev u.usb size turns).1 = some st ∧
    ((∀ i, (usb i).status = .good) → st = .good)

theorem filled_segmented (hdvd : dev.segmentStep ∣ size) (usb : Nat → BulkRead) (turns : Nat) :
    Filled dev size (genesysFillSegmentedBuffer dev usb size turns) := by
  apply filled_of_turn dev.segmentStep
  intro f hkeeps hgroups hlt
  exact keeps_segmentedTurn hdvd hkeeps hgroups hlt

theorem filled_interp (dev : GenesysDevice) (usb : Nat → BulkRead) (size turns : Nat) :
    Filled dev size (genesysFillLineInterpBuffer dev usb size turns) := by
  apply filled_of_turn 1
  intro f hkeeps _ hlt
  obtain ⟨hnext, hle⟩ := keeps_interpTurn hkeeps hlt
  exact ⟨hnext, Nat.one_dvd _, hle⟩

theorem segmented_delivers (hseg : dev.Segmented) {sizes : List Nat} {u : LineScan}
    (hsizes : ∀ size ∈ sizes, dev.segmentStep ∣ size)
    (hrun : Run (LineScan.Step genesysFillSegmentedBuffer) ⟨dev, usb, []⟩ sizes u) :
    Delivers dev usb genesysFillSegmentedBuffer (dev.interleavedLine usb) sizes u := by
  have hstores := storesPieces_segmented hseg usb
  obtain ⟨p, hready, hdone, hlen⟩ := hstores.run (fun size => dev.segmentStep ∣ size) (by
    intro p v size turns hdvd hready
    have hstep : v.dev.segmentStep = dev.segmentStep := by
      rcases hready with hat | ⟨-, hdev, -⟩
      · exact hat.same.keeps.segmentStep
      · exact congrArg GenesysDevice.segmentStep hdev
    exact filled_segmented (hstep ▸ hdvd) v.usb turns) hsizes hrun
  refine ⟨⟨hlen, p, ?_⟩, hstores.returns hready hdone⟩
  rw [hdone, ← hseg.upTo_group]
  exact upTo_isPrefix (Nat.le_mul_of_pos_right p hseg.groups_pos)

theorem interp_delivers (hi : dev.Interpolated) {sizes : List Nat} {u : LineScan}
    (hrun : Run (LineScan.Step genesysFillLineInterpBuffer) ⟨dev, usb, []⟩ sizes u) :
    Delivers dev usb genesysFillLineInterpBuffer (dev.keptLine usb) sizes u := by
  have hstores := storesPieces_interp hi usb
  obtain ⟨p, hready, hdone, hlen⟩ := hstores.run (fun _ => True)
    (fun _ _ => filled_interp _ _ _ _) (fun _ _ => trivial) hrun
  refine ⟨⟨hlen, p, ?_⟩, hstores.returns hready hdone⟩
  rw [hdone, ← hi.upTo_keptByte]
  exact upTo_isPrefix (Nat.le_mul_of_pos_right p hi.len_pos)

/-- For requests of whole groups the reader of segments delivers the first bytes of the lines
    with their segments interleaved, and for requests of any size the other reader the first
    bytes of the lines that are kept: what is delivered depends only on how many bytes have been
    asked for.  No byte is stored behind the end of a request. -/
theorem fillBuffers_chunk_independent :
    (∀ (dev : GenesysDevice) (usb : Nat → BulkRead), dev.Segmented →
      (∀ (sizes : List Nat) (u : LineScan), (∀ size ∈ sizes, dev.segmentStep ∣ size) →
        Run (LineScan.Step genesysFillSegmentedBuffer) ⟨dev, usb, []⟩ sizes u →
          Delivers dev usb genesysFillSegmentedBuffer (dev.interleavedLine usb) sizes u) ∧
      (∀ (sizes sizes' : List Nat) (u u' : LineScan),
        (∀ size ∈ sizes, dev.segmentStep ∣ size) → (∀ size ∈ sizes', dev.segmentStep ∣ size) →
        Run (LineScan.Step genesysFillSegmentedBuffer) ⟨dev, usb, []⟩ sizes u →
        Run (LineScan.Step genesysFillSegmentedBuffer) ⟨dev, usb, []⟩ sizes' u' →
          sizes.sum = sizes'.sum → u.delivered = u'.delivered)) ∧
    (∀ (dev : GenesysDevice) (usb : Nat → BulkRead), dev.Interpolated →
      (∀ (sizes : List Nat) (u : LineScan),
        Run (LineScan.Step genesysFillLineInterpBuffer) ⟨dev, usb, []⟩ sizes u →
          Delivers dev usb genesysFillLineInterpBuffer (dev.keptLine usb) sizes u) ∧
      (∀ (sizes sizes' : List Nat) (u u' : LineScan),
        Run (LineScan.Step genesysFillLineInterpBuffer) ⟨dev, usb, []⟩ sizes u →
        Run (LineScan.Step genesysFillLineInterpBuffer) ⟨dev, usb, []⟩ sizes' u' →
          sizes.sum = sizes'.sum → u.delivered = u'.delivered)) ∧
    ∀ (dev : GenesysDevice) (usb : Nat → BulkRead) (size turns : Nat),
      (dev.segmentStep ∣ size →
        (genesysFillSegmentedBuffer dev usb size turns).2.stored.length ≤ size) ∧
      (genesysFillLineInterpBuffer dev usb size turns).2.stored.length ≤ size := by
  refine ⟨?_, ?_, ?_⟩
  · intro dev usb hseg
    refine ⟨fun sizes u hsizes hrun => segmented_delivers hseg hsizes hrun, ?_⟩
    intro sizes sizes' u u' hsizes hsizes' hrun hrun' hsum
    have hfirst := (segmented_delivers hseg hsizes' hrun').first
    rw [← hsum] at hfirst
    exact (segmented_delivers hseg hsizes hrun).first.unique hfirst
  · intro dev usb hi
    refine ⟨fun sizes u hrun => interp_delivers hi hrun, ?_⟩
    intro sizes sizes' u u' hrun hrun' hsum
    have hfirst := (interp_delivers hi hrun').first
    rw [← hsum] at hfirst
    exact (interp_delivers hi hrun).first.unique hfirst
  · intro dev usb size turns
    exact ⟨fun hdvd => (filled_segmented hdvd usb turns).length_le,
      (filled_interp dev usb size turns).length_le⟩

/-- Two segments of two bytes a line, two lines in the buffer. -/
def pairDevice : GenesysDevice :=
  { plainDevice false with
    segnb := 2, segnb_dvd := fun _ => by decide, order := id, bpl := 4, dist := 2, len := 2,
    oeSize := 8 }

/-- Every second line is left out. -/
def halfDevice : GenesysDevice :=
  { plainDevice false with lineInterp := 2, bpl := 3, len := 3, oeSize := 6 }

/-- The scanner counts the bytes that it sends. -/
def countingReads (oeSize : Nat) : Nat → BulkRead :=
  fun i => ⟨.good, fun j => BitVec.ofNat 8 (i * oeSize + j), 0, 0⟩

/-- Three requests for two and a half lines of two segments, and two for three bytes out of the
    lines 0 and 2. -/
theorem fillBuffers_small :
    (∃ u, Run (LineScan.Step genesysFillSegmentedBuffer) ⟨pairDevice, countingReads 8, []⟩
        [2, 6, 2] u ∧ u.delivered = [0, 2, 1, 3, 4, 6, 5, 7, 8, 10]) ∧
    ∃ u, Run (LineScan.Step genesysFillLineInterpBuffer) ⟨halfDevice, countingReads 6, []⟩
        [4, 1] u ∧ u.delivered = [0, 1, 2, 6, 7] := by
  constructor
  · have hseg : pairDevice.Segmented :=
      ⟨⟨by decide, by decide, by decide, rfl, rfl⟩, rfl, by decide, by decide, by decide,
        by decide⟩
    have hrun : Run (LineScan.Step genesysFillSegmentedBuffer)
        ⟨pairDevice, countingReads 8, []⟩ [2, 6, 2] _ :=
      ((Run.nil.snoc ⟨5, by decide +kernel, rfl⟩).snoc ⟨5, by decide +kernel, rfl⟩).snoc
        ⟨5, by decide +kernel, rfl⟩
    refine ⟨_, hrun, ?_⟩
    have hfirst := ((fillBuffers_chunk_independent.1 _ _ hseg).1 _ _ (by decide) hrun).first
    rw [@First.eq_take _ _ _ 3 _ hfirst (by decide +kernel)]
    decide +kernel
  · have hi : halfDevice.Interpolated :=
      ⟨⟨by decide, by decide, by decide, rfl, rfl⟩, by decide, by decide, by decide, rfl⟩
    have hrun : Run (LineScan.Step genesysFillLineInterpBuffer)
        ⟨halfDevice, countingReads 6, []⟩ [4, 1] _ :=
      (Run.nil.snoc ⟨9, by decide +kernel, rfl⟩).snoc ⟨9, by decide +kernel, rfl⟩
    refine ⟨_, hrun, ?_⟩
    have hfirst := ((fillBuffers_chunk_independent.2.1 _ _ hi).1 _ _ hrun).first
    rw [@First.eq_take _ _ _ 3 _ hfirst (by decide +kernel)]
    decide +kernel

/-- A request for less than a group is exceeded. -/
theorem fillSegmentedBuffer_exceeds :
    (genesysFillSegmentedBuffer pairDevice (countingReads 8) 1 5).1 = some .good ∧
      (genesysFillSegmentedBuffer pairDevice (countingReads 8) 1 5).2.stored = [0, 2] := by
  decide +kernel

end SaneBackends.Genesys
