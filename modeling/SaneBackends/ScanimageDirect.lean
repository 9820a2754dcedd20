import SaneBackends.ScanimageBuffer

/-!
# Images that `scanimage` writes while it reads them

`scan_it` of `frontend/scanimage.c` when the image need not be buffered: what a call of
`sane_read` brings goes to `stdout` at once.  Samples of 16 bits of a PNM image are written with
the high byte first.  A read may end between the two bytes of a sample; the first one is kept then
and written behind the first byte of the next read.
-/

namespace SaneBackends.Scanimage

open BytePairs

/-! ### Writing a read -/

/-- What has been written behind the header.  `hangOver` is the byte saved from the last read,
    `totalBytes` the sum of all lengths, a `SANE_Word`. -/
structure DirectOutput where
  written : List SaneByte
  hangOver : Option SaneByte
  totalBytes : BitVec 32
deriving DecidableEq, Repr

/-- Before the first read. -/
def DirectOutput.start : DirectOutput := ⟨[], none, 0⟩

/-- "Now do the byte-swapping": the loop from `start` on. -/
def swapFrom (start : Nat) (buffer : List SaneByte) : List SaneByte :=
  (List.range' start ((buffer.length - start) / 2) 2).foldl swapAt buffer

/-- "Check if we have an odd number of bytes", and the last call of `fwrite`. -/
def DirectOutput.finish (out : DirectOutput) (start : Nat) (buffer : List SaneByte) :
    DirectOutput :=
  if (buffer.length - start) % 2 ≠ 0 then
    { out with
      written := out.written ++ buffer.take (buffer.length - 1), hangOver := buffer.getLast? }
  else { out with written := out.written ++ buffer }

/-- A read that goes to a PNM image of 16 bits, on a little-endian machine. -/
def DirectOutput.swapBytes (out : DirectOutput) (buffer : List SaneByte) : DirectOutput :=
  match out.hangOver, buffer with
  | some saved, b :: rest =>
      -- the byte in front of the saved one makes room for it in the buffer
      let out := { out with written := out.written ++ [b], hangOver := none }
      out.finish 1 (swapFrom 1 (saved :: rest))
  | _, _ => out.finish 0 (swapFrom 0 buffer)

/-- One turn of the loop, for a read that is successful. -/
def DirectOutput.read (tiff : Bool) (depth : Int) (out : DirectOutput) (buffer : List SaneByte) :
    DirectOutput :=
  let out := { out with totalBytes := out.totalBytes + BitVec.ofNat 32 buffer.length }
  if tiff ∨ depth ≠ 16 then { out with written := out.written ++ buffer }
  else out.swapBytes buffer

/-- All reads up to the end of the frame. -/
def writeReads (tiff : Bool) (depth : Int) (reads : List (List SaneByte)) : DirectOutput :=
  reads.foldl (DirectOutput.read tiff depth) .start

/-! ### The saved byte -/

variable {out : DirectOutput} {bs e t : List SaneByte}

/-- Every list is one of even length with at most one more element. -/
theorem exists_pairs (bs : List SaneByte) :
    ∃ e t : List SaneByte, bs = e ++ t ∧ e.length % 2 = 0 ∧ t.length ≤ 1 := by
  refine ⟨bs.take (2 * (bs.length / 2)), bs.drop (2 * (bs.length / 2)), ?_, ?_, ?_⟩
  · exact (List.take_append_drop _ _).symm
  · rw [List.length_take]
    omega
  · rw [List.length_drop]
    omega

theorem swapFrom_zero (he : e.length % 2 = 0) (ht : t.length ≤ 1) :
    swapFrom 0 (e ++ t) = swapPairs e ++ t := by
  have hcount : 2 * (((e ++ t).length - 0) / 2) = e.length := by
    rw [List.length_append]
    omega
  rw [swapFrom, foldl_swapAt (by omega), hcount, List.take_left, List.drop_left]

theorem swapFrom_one (b : SaneByte) (he : e.length % 2 = 0) (ht : t.length ≤ 1) :
    swapFrom 1 (b :: (e ++ t)) = b :: (swapPairs e ++ t) := by
  have hcount : (b :: (e ++ t)).length - 1 = (e ++ t).length - 0 := rfl
  rw [swapFrom, foldl_swapAt_cons, hcount]
  exact congrArg _ (swapFrom_zero he ht)

/-- All is written but a byte that has no neighbour; this one is saved. -/
theorem finish_eq (out : DirectOutput) (pre : List SaneByte) (he : e.length % 2 = 0)
    (ht : t.length ≤ 1) :
    out.finish pre.length (pre ++ (e ++ t)) =
      ⟨out.written ++ (pre ++ e), t.head?.or out.hangOver, out.totalBytes⟩ := by
  rw [DirectOutput.finish, List.length_append, Nat.add_sub_cancel_left, List.length_append]
  match t, ht with
  | [], _ =>
    have heven : ¬ (e.length + ([] : List SaneByte).length) % 2 ≠ 0 := by simp [he]
    rw [if_neg heven, List.append_nil]
    rfl
  | [b], _ =>
    have hodd : (e.length + [b].length) % 2 ≠ 0 := by
      rw [List.length_singleton]
      omega
    have htake : pre.length + (e.length + [b].length) - 1 = (pre ++ e).length := by
      rw [List.length_append, List.length_singleton]
      omega
    rw [if_pos hodd, htake, ← List.append_assoc, List.take_left, List.getLast?_append]
    rfl

/-- Of the bytes read so far all pairs have been written, exchanged, and a byte without a
    neighbour is saved. -/
def DirectOutput.Paired (out : DirectOutput) (bs : List SaneByte) : Prop :=
  ∃ e t : List SaneByte, bs = e ++ t ∧ e.length % 2 = 0 ∧ t.length ≤ 1 ∧
    out.written = swapPairs e ∧ out.hangOver = t.head?

theorem DirectOutput.paired_start : DirectOutput.start.Paired [] :=
  ⟨[], [], rfl, rfl, Nat.zero_le 1, rfl, rfl⟩

theorem swapBytes_none (h : out.hangOver = none) (buffer : List SaneByte) :
    out.swapBytes buffer = out.finish 0 (swapFrom 0 buffer) := by
  simp only [DirectOutput.swapBytes, h]

theorem swapBytes_nil (out : DirectOutput) : out.swapBytes [] = out := by
  have hempty : out.swapBytes [] = out.finish 0 (swapFrom 0 []) := by
    cases h : out.hangOver <;> simp only [DirectOutput.swapBytes, h]
  rw [hempty]
  exact congrArg (fun w => { out with written := w }) (List.append_nil _)

theorem swapBytes_some {saved : SaneByte} (h : out.hangOver = some saved) (b : SaneByte)
    (rest : List SaneByte) :
    out.swapBytes (b :: rest) = DirectOutput.finish
      { out with written := out.written ++ [b], hangOver := none } 1
      (swapFrom 1 (saved :: rest)) := by
  simp only [DirectOutput.swapBytes, h]

/-- Every read keeps this. -/
theorem DirectOutput.Paired.swapBytes (h : out.Paired bs) (buffer : List SaneByte) :
    (out.swapBytes buffer).Paired (bs ++ buffer) := by
  obtain ⟨e, t, rfl, he, ht, hwritten, hsaved⟩ := h
  match t, ht with
  | [], _ =>
    -- nothing is saved, so the pairs of the read are pairs of the image
    obtain ⟨e', t', rfl, he', ht'⟩ := exists_pairs buffer
    have hlen : (swapPairs e').length % 2 = 0 := by rw [length_swapPairs, he']
    have hfinish := finish_eq out [] hlen ht'
    rw [swapBytes_none hsaved, swapFrom_zero he' ht']
    refine ⟨e ++ e', t', ?_, ?_, ht', ?_, ?_⟩
    · rw [List.append_nil, List.append_assoc]
    · rw [List.length_append]
      omega
    · rw [swapPairs_append he, ← hwritten]
      exact congrArg DirectOutput.written hfinish
    · have hhang := congrArg DirectOutput.hangOver hfinish
      rw [hsaved, List.head?_nil, Option.or_none] at hhang
      exact hhang
  | [saved], _ =>
    cases buffer with
    | nil =>
      rw [swapBytes_nil, List.append_nil]
      exact ⟨e, [saved], rfl, he, le_rfl, hwritten, hsaved⟩
    | cons b rest =>
      -- the first byte of the read and the saved one are a pair
      obtain ⟨e', t', rfl, he', ht'⟩ := exists_pairs rest
      have hlen : (swapPairs e').length % 2 = 0 := by rw [length_swapPairs, he']
      have hfinish := finish_eq { out with written := out.written ++ [b], hangOver := none }
        [saved] hlen ht'
      rw [swapBytes_some hsaved, swapFrom_one saved he' ht']
      refine ⟨e ++ (saved :: b :: e'), t', ?_, ?_, ht', ?_, ?_⟩
      · simp only [List.append_assoc, List.cons_append, List.nil_append]
      · rw [List.length_append, List.length_cons, List.length_cons]
        omega
      · rw [swapPairs_append he, ← hwritten, swapPairs]
        have hw := congrArg DirectOutput.written hfinish
        rw [List.append_assoc] at hw
        exact hw
      · have hhang := congrArg DirectOutput.hangOver hfinish
        rw [Option.or_none] at hhang
        exact hhang

theorem finish_total (out : DirectOutput) (start : Nat) (buffer : List SaneByte) :
    (out.finish start buffer).totalBytes = out.totalBytes := by
  rw [DirectOutput.finish]
  split <;> rfl

theorem swapBytes_total (out : DirectOutput) (buffer : List SaneByte) :
    (out.swapBytes buffer).totalBytes = out.totalBytes := by
  cases h : out.hangOver with
  | none => rw [swapBytes_none h, finish_total]
  | some saved =>
    cases buffer with
    | nil => rw [swapBytes_nil]
    | cons b rest => rw [swapBytes_some h, finish_total]

/-! ### All reads -/

/-- A read of 16 bits for a PNM image. -/
theorem read_sixteen (out : DirectOutput) (buffer : List SaneByte) :
    out.read false 16 buffer = DirectOutput.swapBytes
      { out with totalBytes := out.totalBytes + BitVec.ofNat 32 buffer.length } buffer := by
  have hdirect : ¬ ((false : Bool) = true ∨ (16 : Int) ≠ 16) := by decide
  rw [DirectOutput.read, if_neg hdirect]

theorem foldl_read (reads : List (List SaneByte)) (h : out.Paired bs) :
    (reads.foldl (DirectOutput.read false 16) out).Paired (bs ++ reads.flatten) ∧
      (reads.foldl (DirectOutput.read false 16) out).totalBytes =
        out.totalBytes + BitVec.ofNat 32 reads.flatten.length := by
  induction reads generalizing out bs with
  | nil =>
    rw [List.flatten_nil, List.append_nil]
    exact ⟨h, (BitVec.add_zero _).symm⟩
  | cons buffer reads ih =>
    have hread : (out.read false 16 buffer).Paired (bs ++ buffer) := by
      have hcounted : DirectOutput.Paired
          { out with totalBytes := out.totalBytes + BitVec.ofNat 32 buffer.length } bs := h
      rw [read_sixteen]
      exact hcounted.swapBytes buffer
    obtain ⟨hpaired, htotal⟩ := ih hread
    rw [List.foldl_cons, List.flatten_cons]
    constructor
    · rw [← List.append_assoc]
      exact hpaired
    · rw [htotal, read_sixteen, swapBytes_total, List.length_append, BitVec.ofNat_add,
        BitVec.add_assoc]

/-- Whatever the lengths of the reads, an image of 16 bits is written with the bytes of each
    sample exchanged, the last saved byte included; `totalBytes` counts the bytes read. -/
theorem writeReads_swaps (reads : List (List SaneByte)) (h : reads.flatten.length % 2 = 0) :
    writeReads false 16 reads =
      ⟨swapPairs reads.flatten, none, BitVec.ofNat 32 reads.flatten.length⟩ := by
  obtain ⟨⟨e, t, hbs, he, ht, hwritten, hsaved⟩, htotal⟩ :=
    foldl_read reads DirectOutput.paired_start
  have hnil : t = [] := by
    have hlen := congrArg List.length hbs
    rw [List.nil_append, List.length_append] at hlen
    apply List.eq_nil_of_length_eq_zero
    omega
  rw [hnil, List.nil_append, List.append_nil] at hbs
  rw [hnil] at hsaved
  rw [← hbs] at hwritten
  calc writeReads false 16 reads
      = ⟨(writeReads false 16 reads).written, (writeReads false 16 reads).hangOver,
          (writeReads false 16 reads).totalBytes⟩ := rfl
    _ = ⟨swapPairs reads.flatten, none, BitVec.ofNat 32 reads.flatten.length⟩ := by
      have hzero : DirectOutput.start.totalBytes + BitVec.ofNat 32 reads.flatten.length =
          BitVec.ofNat 32 reads.flatten.length := BitVec.zero_add _
      rw [writeReads, hwritten, hsaved, htotal, hzero, List.head?_nil]

/-- The bytes of three samples, read one, none, three and two at a time. -/
theorem writeReads_six : writeReads false 16 [[1], [], [2, 3, 4], [5, 6]] =
    ⟨[2, 1, 4, 3, 6, 5], none, 6⟩ := by
  rw [writeReads_swaps _ (by decide)]
  decide

end SaneBackends.Scanimage
