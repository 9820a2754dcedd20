import SaneBackends.LexmarkScan

/-!
# The read buffer of a Lexmark scanner

Any sequence of batches that are added when `read_buffer_bytes_available` has room for them, and of
reads of any size.  The line that is being put together stands behind the bytes that can be read.
The room leaves out one line for it, which is enough unless the buffer is empty or the bytes of a
line do not come in the order of its cells.
-/

namespace SaneBackends.Lexmark

open LabelledRun LineAssembly RingMemory

variable {scan : Scan} {rb : ReadBuffer} {unread cur xs ys out : List SaneByte} {x : SaneByte}
  {m n : Nat}

/-! ### The cells of a line that is not complete -/

/-- The cells up to the last one that has been written, after `k` bytes of a line. -/
def Scan.partialReach (scan : Scan) (k : Nat) : Nat :=
  match scan.mode with
  | .gray => k
  | .lineart => (k + 7) / 8
  | .color =>
    if k = 0 then 0
    else if k ≤ scan.pixels then 3 * k - 2
    else if k < 2 * scan.pixels then 3 * scan.pixels - 2
    else 3 * scan.pixels - 1

/-- The same after `m` bytes that may make whole lines. -/
def Scan.reach (scan : Scan) (m : Nat) : Nat :=
  m / scan.layout.raw * scan.layout.size + scan.partialReach (m % scan.layout.raw)

theorem color_place_lt {w i k : Nat} (hik : i < k) (hk : k < 3 * w) :
    3 * (i % w) + i / w <
      if k = 0 then 0 else if k ≤ w then 3 * k - 2 else if k < 2 * w then 3 * w - 2
        else 3 * w - 1 := by
  have hw : 0 < w := by omega
  have hpixel := Nat.mod_lt i hw
  have hplane : i / w < 3 := Nat.div_lt_of_lt_mul (by omega)
  have hdivmod := Nat.div_add_mod i w
  generalize i / w = plane at hplane hdivmod ⊢
  generalize i % w = pixel at hpixel hdivmod ⊢
  match plane, hplane with
  | 0, _ => split_ifs <;> omega
  | 1, _ => split_ifs <;> omega
  | 2, _ => split_ifs <;> omega

theorem place_lt_partialReach {i k : Nat} (hik : i < k) (hk : k < scan.layout.raw) :
    scan.layout.place i < scan.partialReach k := by
  rw [Scan.layout] at hk ⊢
  rw [Scan.partialReach]
  cases hmode : scan.mode with
  | color =>
    rw [hmode] at hk
    exact color_place_lt hik hk
  | gray => exact hik
  | lineart =>
    change i / 8 < (k + 7) / 8
    omega

/-- All bytes go into cells within the reach. -/
theorem offset_lt_reach (h : n < m) : scan.layout.offset n < scan.reach m := by
  have hpos := scan.layout.raw_pos
  rw [Layout.offset, Scan.reach]
  rcases Nat.lt_or_eq_of_le (Nat.div_le_div_right (c := scan.layout.raw) h.le) with hlt | heq
  · have hplace := scan.layout.place_lt (Nat.mod_lt n hpos)
    have hmul : (n / scan.layout.raw + 1) * scan.layout.size ≤
        m / scan.layout.raw * scan.layout.size := Nat.mul_le_mul_right _ hlt
    rw [Nat.succ_mul] at hmul
    omega
  · have hn := Nat.div_add_mod n scan.layout.raw
    have hm := Nat.div_add_mod m scan.layout.raw
    rw [heq] at hn ⊢
    exact Nat.add_lt_add_left (place_lt_partialReach (by omega) (Nat.mod_lt m hpos)) _

theorem Scan.reach_zero (scan : Scan) : scan.reach 0 = 0 := by
  rw [Scan.reach, Nat.zero_div, Nat.zero_mul, Nat.zero_mod, Scan.partialReach]
  cases scan.mode <;> rfl

theorem size_le_raw (scan : Scan) : scan.layout.size ≤ scan.layout.raw := by
  rw [Scan.layout]
  cases scan.mode with
  | color => exact le_refl _
  | gray => exact le_refl _
  | lineart =>
    have hpixels := scan.pixels_pos
    change (scan.pixels + 7) / 8 ≤ scan.pixels
    omega

/-- What is reached of a line lies in it. -/
theorem partialReach_le_size {k : Nat} (hk : k < scan.layout.raw) :
    scan.partialReach k ≤ scan.layout.size := by
  have hpos : 0 < scan.layout.size :=
    Nat.lt_of_le_of_lt (Nat.zero_le _) (scan.layout.place_lt scan.layout.raw_pos)
  rw [Scan.layout] at hk hpos ⊢
  rw [Scan.partialReach]
  cases hmode : scan.mode with
  | color =>
    rw [hmode] at hk hpos
    change k < 3 * scan.pixels at hk
    change 0 < 3 * scan.pixels at hpos
    change _ ≤ 3 * scan.pixels
    dsimp only
    split_ifs <;> omega
  | gray =>
    rw [hmode] at hk
    exact hk.le
  | lineart =>
    rw [hmode] at hk
    change k < scan.pixels at hk
    change (k + 7) / 8 ≤ (scan.pixels + 7) / 8
    omega

/-- In gray and lineart modes a byte never reaches further than one cell. -/
theorem partialReach_le_self (h : scan.mode ≠ .color) (k : Nat) : scan.partialReach k ≤ k := by
  rw [Scan.partialReach]
  cases hmode : scan.mode with
  | color => exact absurd hmode h
  | gray => exact le_refl _
  | lineart =>
    dsimp only
    omega

/-- No bytes reach a line further than they are many. -/
theorem reach_le_add (m : Nat) : scan.reach m ≤ m + scan.layout.size := by
  have hdivmod := Nat.div_add_mod m scan.layout.raw
  have hmul : m / scan.layout.raw * scan.layout.size ≤ m / scan.layout.raw * scan.layout.raw :=
    Nat.mul_le_mul_left _ (size_le_raw scan)
  have hpartial := partialReach_le_size (Nat.mod_lt m scan.layout.raw_pos)
  rw [Scan.reach]
  rw [Nat.mul_comm] at hdivmod
  omega

/-- In gray and lineart modes this is so from any place of a line on. -/
theorem reach_column_le (h : scan.mode ≠ .color) (hn : n < scan.layout.raw) (m : Nat) :
    scan.reach (n + m) ≤ m + scan.layout.size := by
  have hdivmod := Nat.div_add_mod (n + m) scan.layout.raw
  have hmod := Nat.mod_lt (n + m) scan.layout.raw_pos
  have hself := partialReach_le_self h ((n + m) % scan.layout.raw)
  have hsize := partialReach_le_size hmod
  rw [Scan.reach]
  cases hlines : (n + m) / scan.layout.raw with
  | zero => omega
  | succ q =>
    have hmul : q * scan.layout.size ≤ q * scan.layout.raw :=
      Nat.mul_le_mul_left _ (size_le_raw scan)
    rw [hlines, Nat.mul_comm, Nat.succ_mul] at hdivmod
    rw [Nat.succ_mul]
    omega

/-! ### Runs of the buffer -/

/-- The buffer, all bytes that have been added and all that have been read. -/
structure Ring where
  rb : ReadBuffer
  added : List SaneByte
  out : List SaneByte

inductive RingOp
  | add (batch : List SaneByte)
  | get (size : Nat)

/-- A batch is added if there is room for it. -/
def Ring.exec (scan : Scan) (s : Ring) : RingOp → Ring
  | .add batch =>
    if batch.length ≤ bytesAvailable s.rb then
      { s with
        rb := batch.foldl (Lexmark.add scan.mode scan.threshold) s.rb
        added := s.added ++ batch }
    else s
  | .get size =>
    let (bytes, rb) := getBytes 2 s.rb size
    { s with rb := rb, out := s.out ++ bytes }

/-- The buffer of a scan before anything is added. -/
def Scan.ring (scan : Scan) (fresh : Nat → SaneByte) : Ring where
  rb := readBufferInit scan.bytesPerLine scan.pixels fresh
  added := []
  out := []

/-- The place in its line of the next byte. -/
def Ring.column (scan : Scan) (s : Ring) : Nat := s.added.length % scan.layout.raw

/-- A batch that is added does not reach around to bytes that can still be read. -/
def RingOp.Clear (scan : Scan) (s : Ring) : RingOp → Prop
  | .add batch => batch.length ≤ bytesAvailable s.rb →
      s.rb.occupied + scan.reach (s.column scan + batch.length) ≤ s.rb.size
  | .get _ => True

/-- What the buffer is for: the next line lies in the buffer and apart from what can be read, the
    lines that have been completed are what has been read and what can be read, nothing can be read
    exactly when the buffer says so, and a read of any size gives the next bytes. -/
structure Ring.Correct (scan : Scan) (s : Ring) : Prop where
  inside : s.rb.writeptr + scan.layout.size ≤ s.rb.size
  apart : s.rb.occupied + scan.reach (s.column scan) ≤ s.rb.size
  kept : scan.layout.image s.added =
    s.out ++ ring s.rb.data s.rb.size s.rb.readptr s.rb.occupied
  empty : s.rb.empty = true ↔ scan.layout.image s.added = s.out
  get : ∀ size, (getBytes 2 s.rb size).1 =
    ((scan.layout.image s.added).drop s.out.length).take size

/-- The invariant of the runs. -/
structure Ring.Holding (scan : Scan) (s : Ring) (unread : List SaneByte) : Prop where
  streamed : s.rb.Streamed scan s.added s.out unread
  apart : unread.length + scan.reach (s.column scan) ≤ s.rb.size

variable {s : Ring}

theorem Ring.Holding.correct (h : s.Holding scan unread) : s.Correct scan := by
  have hfilled := h.streamed.filled
  have himage := h.streamed.image
  have hring : ring s.rb.data s.rb.size s.rb.readptr unread.length = unread :=
    hfilled.holds.front
  refine ⟨hfilled.line_fits.1, ?_, ?_, ?_, ?_⟩
  · rw [hfilled.occupied_eq]
    exact h.apart
  · rw [hfilled.occupied_eq, hring, himage]
  · rw [hfilled.empty, himage, decide_eq_true_iff, List.append_right_eq_self]
  · intro size
    obtain ⟨rb', hget, -⟩ := getBytes_spec hfilled size
    rw [hget, himage, List.drop_left]

/-- The bytes that can be read and the cells that are reached grow together. -/
theorem reach_append (himage : scan.layout.image xs = out ++ unread)
    {unread' : List SaneByte} (himage' : scan.layout.image (xs ++ ys) = out ++ unread') :
    unread'.length + scan.reach ((xs ++ ys).length % scan.layout.raw) =
      unread.length + scan.reach (xs.length % scan.layout.raw + ys.length) := by
  have hpos := scan.layout.raw_pos
  have hlen := congrArg List.length himage
  have hlen' := congrArg List.length himage'
  rw [Layout.length_image] at hlen hlen'
  rw [List.length_append] at hlen
  have hxs := Nat.div_add_mod xs.length scan.layout.raw
  have hdiv : (xs ++ ys).length / scan.layout.raw = xs.length / scan.layout.raw +
      (xs.length % scan.layout.raw + ys.length) / scan.layout.raw := by
    rw [List.length_append]
    conv_lhs => rw [← hxs, Nat.add_assoc]
    rw [Nat.mul_add_div hpos]
  have hmod : (xs ++ ys).length % scan.layout.raw =
      (xs.length % scan.layout.raw + ys.length) % scan.layout.raw := by
    rw [List.length_append, Nat.mod_add_mod]
  rw [hdiv, Nat.add_mul, List.length_append] at hlen'
  rw [Scan.reach, Scan.reach, Nat.mod_div_self, Nat.zero_mul, Nat.mod_mod, hmod]
  omega

/-- Adding bytes moves neither the end of the buffer nor the read pointer. -/
theorem add_frame (mode : Mode) (threshold : SaneByte) (rb : ReadBuffer) (x : SaneByte) :
    (Lexmark.add mode threshold rb x).size = rb.size ∧
      (Lexmark.add mode threshold rb x).readptr = rb.readptr := by
  cases mode with
  | color =>
    change (addByte rb x).size = rb.size ∧ (addByte rb x).readptr = rb.readptr
    rw [addByte]
    cases rb.region <;> dsimp only <;> split <;> exact ⟨rfl, rfl⟩
  | gray =>
    change (addByteGray rb x).size = rb.size ∧ (addByteGray rb x).readptr = rb.readptr
    rw [addByteGray]
    split <;> exact ⟨rfl, rfl⟩
  | lineart =>
    change (addBitLineart threshold rb x).size = rb.size ∧
      (addBitLineart threshold rb x).readptr = rb.readptr
    rw [addBitLineart]
    split_ifs <;> exact ⟨rfl, rfl⟩

theorem foldl_add_frame (mode : Mode) (threshold : SaneByte) (rb : ReadBuffer)
    (batch : List SaneByte) :
    (batch.foldl (Lexmark.add mode threshold) rb).size = rb.size ∧
      (batch.foldl (Lexmark.add mode threshold) rb).readptr = rb.readptr := by
  induction batch generalizing rb with
  | nil => exact ⟨rfl, rfl⟩
  | cons x batch ih =>
    obtain ⟨hsize, hread⟩ := add_frame mode threshold rb x
    rw [List.foldl_cons, (ih _).1, (ih _).2]
    exact ⟨hsize, hread⟩

theorem size_getBytes (depth : Nat) (rb : ReadBuffer) (size : Nat) :
    (getBytes depth rb size).2.size = rb.size := by
  induction depth generalizing rb size with
  | zero => rfl
  | succ depth ih =>
    rw [getBytes]
    dsimp only
    split_ifs
    · rfl
    · rfl
    · rfl
    · exact ih ..
    · rfl

/-- A batch that is clear. -/
theorem Ring.Holding.add (h : s.Holding scan unread) {batch : List SaneByte}
    (hclear : unread.length + scan.reach (s.column scan + batch.length) ≤ s.rb.size) :
    ∃ unread', Ring.Holding scan
      { s with
        rb := batch.foldl (Lexmark.add scan.mode scan.threshold) s.rb
        added := s.added ++ batch } unread' := by
  have hroom : ∀ i < batch.length, unread.length +
      scan.layout.offset ((scan.layout.rest s.added).length + i) < s.rb.size := by
    intro i hi
    rw [Layout.length_rest]
    have hreach : scan.layout.offset (s.column scan + i) <
        scan.reach (s.column scan + batch.length) := offset_lt_reach (by omega)
    rw [Ring.column] at hreach hclear
    omega
  obtain ⟨unread', hstreamed⟩ := h.streamed.foldl hroom
  refine ⟨unread', hstreamed, ?_⟩
  have hgrow := reach_append h.streamed.image hstreamed.image
  rw [Ring.column] at hclear ⊢
  dsimp only
  rw [hgrow, (foldl_add_frame ..).1]
  exact hclear

/-- A read of any size. -/
theorem Ring.Holding.get (h : s.Holding scan unread) (size : Nat) :
    Ring.Holding scan { s with
      rb := (getBytes 2 s.rb size).2
      out := s.out ++ (getBytes 2 s.rb size).1 } (unread.drop size) := by
  obtain ⟨rb', hget, hfilled⟩ := getBytes_spec h.streamed.filled size
  have hsize : rb'.size = s.rb.size := by
    have hlines := size_getBytes 2 s.rb size
    rwa [hget] at hlines
  rw [hget]
  refine ⟨⟨hfilled, ?_⟩, ?_⟩
  · rw [List.append_assoc, List.take_append_drop]
    exact h.streamed.image
  · have hapart := h.apart
    rw [List.length_drop]
    change _ + scan.reach (s.column scan) ≤ rb'.size
    omega

theorem Scan.ring_holding (hline : scan.bytesPerLine ≤ 3 * MAX_XFER_SIZE)
    (fresh : Nat → SaneByte) : (scan.ring fresh).Holding scan [] := by
  obtain ⟨xs, unread, hreading, -⟩ := start_between hline fresh
  have hxs : xs = [] := (List.append_eq_nil_iff.mp hreading.stream.symm).1
  have himage := hreading.streamed.image
  subst hxs
  rw [Layout.image, List.length_nil, Nat.zero_div] at himage
  obtain rfl : unread = [] := himage.symm
  refine ⟨hreading.streamed, ?_⟩
  rw [Ring.column]
  change 0 + scan.reach (0 % scan.layout.raw) ≤ _
  rw [Nat.zero_mod, scan.reach_zero]
  exact Nat.zero_le _

/-- What one operation preserves. -/
theorem Ring.Holding.exec (h : s.Holding scan unread) {op : RingOp} (hclear : op.Clear scan s) :
    ∃ unread', Ring.Holding scan (s.exec scan op) unread' := by
  cases op with
  | get size => exact ⟨_, h.get size⟩
  | add batch =>
    rw [Ring.exec]
    split
    · rename_i hroom
      have hfits := hclear hroom
      rw [h.streamed.filled.occupied_eq] at hfits
      exact h.add hfits
    · exact ⟨unread, h⟩

/-! ### When the room is enough -/

/-- Pointers that are less than a line apart, or all that is free but one line. -/
theorem ReadBuffer.Filled.bytesAvailable_eq (h : rb.Filled scan unread cur) (hne : unread ≠ []) :
    bytesAvailable rb = 0 ∨
      bytesAvailable rb + unread.length + scan.layout.size = rb.size := by
  have hempty : rb.empty = false := by rw [h.empty, decide_eq_false hne]
  have hoff := h.holds.off_lt
  have hfits := h.line_fits.1
  have hpos := layout_size_pos scan
  rw [bytesAvailable, hempty, h.linesize, if_neg Bool.false_ne_true]
  rcases h.pointers hne with ⟨hgt, hlen⟩ | ⟨hle, hlen⟩
  · split_ifs <;> omega
  · split_ifs
    · exact .inl rfl
    · omega
    · omega

/-- When something can be read, the room is enough for a batch that begins a line, and in gray
    and lineart modes for every batch. -/
theorem Ring.Holding.clear (h : s.Holding scan unread) (hne : unread ≠ [])
    (hcase : s.column scan = 0 ∨ scan.mode ≠ .color) (op : RingOp) : op.Clear scan s := by
  cases op with
  | get size => exact trivial
  | add batch =>
    intro hroom
    have hapart := h.apart
    have hcolumn : s.column scan < scan.layout.raw := Nat.mod_lt _ scan.layout.raw_pos
    rw [h.streamed.filled.occupied_eq]
    rcases h.streamed.filled.bytesAvailable_eq hne with hzero | hall
    · have hnil : batch.length = 0 := by omega
      rw [hnil]
      exact hapart
    · have hreach : scan.reach (s.column scan + batch.length) ≤
          batch.length + scan.layout.size := by
        rcases hcase with hstart | hmode
        · rw [hstart, Nat.zero_add]
          exact reach_le_add _
        · exact reach_column_le hmode hcolumn _
      omega

/-- In every run whose batches are clear the buffer is a ring of lines. -/
theorem readBuffer_correct (scan : Scan) (hline : scan.bytesPerLine ≤ 3 * MAX_XFER_SIZE)
    (fresh : Nat → SaneByte) (ops : List RingOp) (s : Ring)
    (hrun : Run (fun s op s' => op.Clear scan s ∧ s.exec scan op = s') (scan.ring fresh) ops s) :
    s.Correct scan := by
  have hholding : ∃ unread, s.Holding scan unread := by
    refine hrun.invariant (I := fun s => ∃ unread, s.Holding scan unread)
      ⟨[], Scan.ring_holding hline fresh⟩ ?_
    rintro s op _ ⟨unread, h⟩ ⟨hclear, rfl⟩
    exact h.exec hclear
  obtain ⟨unread, h⟩ := hholding
  exact h.correct

/-- A byte, a line and a half, and a read that leaves the read pointer within a line. -/
theorem readBuffer_correct_twoLines :
    ((((twoLines.ring fun _ => 0).exec twoLines (.add [1])).exec twoLines (.add [2, 3, 4])).exec
      twoLines (.get 1)).Correct twoLines := by
  refine readBuffer_correct twoLines (by decide) (fun _ => 0)
    [.add [1], .add [2, 3, 4], .get 1] _
    (.snoc (.snoc (.snoc .nil ⟨fun _ => ?_, rfl⟩) ⟨fun _ => ?_, rfl⟩) ⟨trivial, rfl⟩)
  · decide +kernel
  · decide +kernel

/-! ### A line that is overtaken -/

/-- Lines of two colour pixels, which are six bytes. -/
def shortLines : Scan where
  mode := .color
  threshold := 0
  shade _ x := x
  pixels := 2
  lines := 65536
  pixels_pos := Nat.two_pos

/-- `n` bytes that are zero. -/
def zeros (n : Nat) : List SaneByte := List.replicate n 0

/-- Three transfers of black pixels, of which the last one leaves a line incomplete, and a read. -/
def blackLines : List RingOp :=
  [.add (zeros 65472), .add (zeros 65472), .add (zeros 5), .get 3]

/-- The room is for all but six of the bytes that are free; the second byte of a line goes into
    its fourth cell. -/
def whiteByte : RingOp := .add (zeros 65468 ++ [1])

/-- The state of a run of this kind, by the number of bytes. -/
structure Ring.Black (s : Ring) (a o : Nat) : Prop where
  holding : ∃ unread, s.Holding shortLines unread
  added : s.added = zeros a
  out : s.out.length = o
  readptr : s.rb.readptr = o
  size : s.rb.size = 196416

variable {a o : Nat}

theorem Ring.Black.length_unread (h : s.Black a o) (hs : s.Holding shortLines unread) :
    unread.length = a / 6 * 6 - o := by
  have hlen := congrArg List.length hs.streamed.image
  rw [Layout.length_image, h.added, List.length_append, h.out, zeros, List.length_replicate]
    at hlen
  change a / 6 * 6 = _ at hlen
  omega

theorem Ring.Black.column_eq (h : s.Black a o) : s.column shortLines = a % 6 := by
  rw [Ring.column, h.added, zeros, List.length_replicate]
  rfl

theorem Ring.Black.writeptr (h : s.Black a o) (ho : o ≤ a / 6 * 6) :
    s.rb.writeptr = a / 6 * 6 % 196416 := by
  obtain ⟨unread, hs⟩ := h.holding
  rw [hs.streamed.filled.writeptr, h.length_unread hs, h.readptr, h.size, Nat.add_sub_cancel' ho]

/-- The room, when at least a line can be read in one piece. -/
theorem Ring.Black.available (h : s.Black a o) (ho : o + 6 ≤ a / 6 * 6)
    (ha : a / 6 * 6 < 196416) : bytesAvailable s.rb = 196410 + o - a / 6 * 6 := by
  have hwrite := h.writeptr (by omega)
  rw [Nat.mod_eq_of_lt ha] at hwrite
  obtain ⟨unread, hs⟩ := h.holding
  have hlen := h.length_unread hs
  have hempty : s.rb.empty = false := by
    rw [hs.streamed.filled.empty, decide_eq_false]
    rintro rfl
    rw [List.length_nil] at hlen
    omega
  have hline : s.rb.linesize = 6 := hs.streamed.filled.linesize
  rw [bytesAvailable, hempty, if_neg Bool.false_ne_true, hline, h.readptr, hwrite, h.size,
    if_neg (by omega), if_neg (by omega)]
  omega

theorem zeros_append (m n : Nat) : zeros m ++ zeros n = zeros (m + n) := by
  rw [zeros, zeros, zeros, List.replicate_append_replicate]

/-- Zeros for which there is room. -/
theorem Ring.Black.add (h : s.Black a o) (hroom : n ≤ bytesAvailable s.rb)
    (hclear : a / 6 * 6 - o + shortLines.reach (a % 6 + n) ≤ 196416) :
    (s.exec shortLines (.add (zeros n))).Black (a + n) o := by
  have hlen : (zeros n).length = n := List.length_replicate
  obtain ⟨unread, hs⟩ := h.holding
  have hfits : unread.length + shortLines.reach (s.column shortLines + (zeros n).length) ≤
      s.rb.size := by
    rw [h.length_unread hs, h.column_eq, hlen, h.size]
    exact hclear
  have hadd : ∃ unread', Ring.Holding shortLines _ unread' := hs.add hfits
  rw [Ring.exec, if_pos (by rwa [hlen])]
  refine ⟨hadd, ?_, h.out, ?_, ?_⟩
  · rw [← zeros_append, ← h.added]
  · rw [(foldl_add_frame ..).2, h.readptr]
  · rw [(foldl_add_frame ..).1, h.size]

/-- Some of the bytes that are in one piece are read. -/
theorem Ring.Black.get (h : s.Black a o) (k : Nat) (ho : o + k < a / 6 * 6)
    (ha : a / 6 * 6 < 196416) : (s.exec shortLines (.get k)).Black a (o + k) := by
  have hwrite := h.writeptr (by omega)
  rw [Nat.mod_eq_of_lt ha] at hwrite
  obtain ⟨unread, hs⟩ := h.holding
  have hlen := h.length_unread hs
  have hempty : s.rb.empty = false := by
    rw [hs.streamed.filled.empty, decide_eq_false]
    rintro rfl
    rw [List.length_nil] at hlen
    omega
  have hget : getBytes 2 s.rb k = (s.rb.front k, { s.rb with readptr := s.rb.readptr + k }) := by
    have hread := h.readptr
    rw [getBytes, if_neg (by rw [hempty]; exact Bool.false_ne_true), if_pos (by omega)]
    dsimp only
    rw [if_neg (by omega)]
  have hfront : (s.rb.front k).length = k := by
    rw [ReadBuffer.front, List.length_map, List.length_range]
  refine ⟨⟨_, hs.get k⟩, h.added, ?_, ?_, ?_⟩
  · change (s.out ++ (getBytes 2 s.rb k).1).length = o + k
    rw [hget, List.length_append, hfront, h.out]
  · change (getBytes 2 s.rb k).2.readptr = o + k
    rw [hget, ← h.readptr]
  · change (getBytes 2 s.rb k).2.size = 196416
    rw [hget, ← h.size]

theorem black_ring (fresh : Nat → SaneByte) : (shortLines.ring fresh).Black 0 0 where
  holding := ⟨[], Scan.ring_holding (by decide) fresh⟩
  added := rfl
  out := rfl
  readptr := rfl
  size := rfl

/-- The run before the white byte. -/
theorem black_lines (fresh : Nat → SaneByte) :
    (blackLines.foldl (Ring.exec shortLines) (shortLines.ring fresh)).Black 130949 3 := by
  have hroom₀ : bytesAvailable (shortLines.ring fresh).rb = 196416 := by
    rw [bytesAvailable]
    exact (if_pos rfl).trans (black_ring fresh).size
  have h₁ := (black_ring fresh).add (n := 65472) (by rw [hroom₀]; decide) (by decide +kernel)
  have hroom₁ := h₁.available (by decide) (by decide)
  have h₂ := h₁.add (n := 65472) (by rw [hroom₁]; decide) (by decide +kernel)
  have hroom₂ := h₂.available (by decide) (by decide)
  have h₃ := h₂.add (n := 5) (by rw [hroom₂]; decide) (by decide +kernel)
  have h₄ := h₃.get 3 (by decide) (by decide)
  rw [blackLines, List.foldl_cons, List.foldl_cons, List.foldl_cons, List.foldl_cons,
    List.foldl_nil]
  exact h₄

/-- The lines of zeros are zeros. -/
theorem mem_image_zeros (h : x ∈ shortLines.layout.image (zeros n)) : x = 0 := by
  obtain ⟨i, -, hline⟩ := List.mem_flatMap.mp h
  obtain ⟨o, -, hcell⟩ := List.mem_map.mp hline
  have hchunk : ∃ m, shortLines.layout.chunk (zeros n) i = List.replicate m 0 := by
    rw [Layout.chunk, zeros, List.drop_replicate, List.take_replicate]
    exact ⟨_, rfl⟩
  obtain ⟨m, hchunk⟩ := hchunk
  rw [← hcell, hchunk]
  change (List.replicate m (0 : SaneByte)).getD (planeIndex 2 o) 0 = 0
  rw [List.getD_eq_getElem?_getD, List.getElem?_replicate]
  split <;> rfl

/-- The last byte of a batch is added to what the others leave. -/
theorem exec_concat (h : (ys ++ [x]).length ≤ bytesAvailable s.rb) :
    (s.exec scan (.add (ys ++ [x]))).rb =
        Lexmark.add scan.mode scan.threshold (s.exec scan (.add ys)).rb x ∧
      (s.exec scan (.add (ys ++ [x]))).added = (s.exec scan (.add ys)).added ++ [x] := by
  have hless : ys.length ≤ bytesAvailable s.rb := by
    rw [List.length_append] at h
    omega
  rw [Ring.exec, Ring.exec, if_pos h, if_pos hless, List.foldl_append]
  exact ⟨rfl, (List.append_assoc ..).symm⟩

/-- The white byte is written over the first byte that can be read. -/
theorem Ring.Black.overtaken (h : s.Black 130949 3) :
    ¬ (s.exec shortLines whiteByte).Correct shortLines := by
  have hroom := h.available (by decide) (by decide)
  have hblack := h.add (n := 65468) (by rw [hroom]; decide) (by decide +kernel)
  have hlength : (zeros 65468 ++ [1]).length = 65469 := by
    rw [List.length_append, zeros, List.length_replicate, List.length_singleton]
  obtain ⟨hrb, hwritten⟩ := @exec_concat shortLines (zeros 65468) 1 s (by omega)
  rw [whiteByte]
  generalize s.exec shortLines (.add (zeros 65468 ++ [1])) = u at hrb hwritten
  generalize s.exec shortLines (.add (zeros 65468)) = t at hrb hwritten hblack
  have hwrite := hblack.writeptr (by decide)
  obtain ⟨unread, ht⟩ := hblack.holding
  have hfilled := ht.streamed.filled
  have hlen := hblack.length_unread ht
  have hrest : (shortLines.layout.rest t.added).length = 1 := by
    rw [Layout.length_rest, hblack.added, zeros, List.length_replicate]
    change (130949 + 65468) % 6 = 1
    decide
  have hempty : t.rb.empty = false := by
    rw [hfilled.empty, decide_eq_false]
    rintro rfl
    cases hlen
  have hadded : Added shortLines.mode shortLines.threshold 2 (by decide)
      (shortLines.layout.rest t.added) 1 t.rb u.rb := by
    rw [hrb]
    refine add_added hfilled.position hfilled.holds.inside fun hwritten => ?_
    rw [hrest] at hwritten
    change planeIndex 2 (3 * (1 % 2) + 1 / 2) < 1 at hwritten
    exact absurd hwritten (by decide)
  have hinside := (hadded.inside (by rw [hrest]; decide)).2
  intro hcorrect
  have hwhite : u.rb.data 3 = 1 := by
    rw [hadded.data, hrest, hwrite]
    change Function.update t.rb.data 3 ((shortLines.layout.rest t.added ++ [1]).getD 1 0) 3 = 1
    rw [Function.update_self, ← hrest, getD_last]
  have hoccupied : u.rb.occupied = 196413 := by
    rw [ReadBuffer.occupied, hinside.1, hinside.2, hempty, hadded.readptr, hadded.size, hwrite,
      hblack.readptr, hblack.size]
    rfl
  have hmem : (1 : SaneByte) ∈ shortLines.layout.image (t.added ++ [1]) := by
    rw [← hwritten, hcorrect.kept, List.mem_append]
    refine .inr ?_
    rw [hoccupied, hadded.readptr, hadded.size, hblack.readptr, hblack.size, ring, List.mem_map]
    refine ⟨0, List.mem_range.mpr (by decide), ?_⟩
    rw [Nat.add_zero, Nat.mod_eq_of_lt (by decide)]
    exact hwhite
  rw [(shortLines.layout.append_inside (by rw [hrest]; decide)).2, hblack.added] at hmem
  exact absurd (mem_image_zeros hmem) (by decide)

/-- The guard alone is not enough, for transfers that are not larger than the scanner's. -/
theorem readBuffer_overtakes :
    ¬ ∀ (scan : Scan) (fresh : Nat → SaneByte) (ops : List RingOp) (s : Ring),
      scan.bytesPerLine ≤ 3 * MAX_XFER_SIZE →
      (∀ batch, RingOp.add batch ∈ ops → batch.length ≤ MAX_XFER_SIZE) →
      Run (fun s op s' => s.exec scan op = s') (scan.ring fresh) ops s → s.Correct scan := by
  intro h
  refine (black_lines fun _ => 0).overtaken
    (h shortLines (fun _ => 0) (blackLines ++ [whiteByte]) _ (by decide) ?_ ?_)
  · intro batch hbatch
    have hlength : ∀ n, (zeros n).length = n := fun n => List.length_replicate
    simp only [blackLines, whiteByte, List.cons_append, List.nil_append, List.mem_cons,
      RingOp.add.injEq, reduceCtorEq, List.not_mem_nil, or_false, false_or] at hbatch
    rcases hbatch with rfl | rfl | rfl | rfl
    · rw [hlength]
      decide
    · rw [hlength]
      decide
    · rw [hlength]
      decide
    · rw [List.length_append, hlength]
      decide
  · have hrun : Run (fun s op s' => s.exec shortLines op = s') (shortLines.ring fun _ => 0)
        blackLines _ := Run.foldl .nil blackLines
    exact hrun.snoc rfl

end SaneBackends.Lexmark
