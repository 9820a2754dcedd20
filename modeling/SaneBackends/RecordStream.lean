import SaneBackends.WordBytes

/-!
# Streams of records

A stream of bytes is a sequence of records, each with its length in four bytes in front
of it.  The length `0xffffffff` marks the end; one byte with a status follows.  The
stream is read byte by byte, so it does not matter in which pieces it arrives.
-/

namespace SaneBackends.RecordStream

open WordBytes

/-- Where the stream stands. -/
inductive Frame where
  /-- In front of a record; the bytes of its length that are already there. -/
  | header (got : List (BitVec 8))
  /-- In a record, with the number of bytes that are still to come. -/
  | body (remaining : Nat)
  | endMark
  | ended (status : BitVec 8)
deriving DecidableEq, Repr

/-- In a record of which nothing may be left. -/
def rest (n : Nat) : Frame := if n = 0 then .header [] else .body n

/-- Behind a length. -/
def announced (w : BitVec 32) : Frame := if w = 0xffffffff then .endMark else rest w.toNat

/-- One byte: where the stream stands behind it, and the data it carries. -/
def Frame.feed : Frame → BitVec 8 → Frame × List (BitVec 8)
  | .header got, b =>
      (if got.length < 3 then .header (got ++ [b]) else announced (ofBytesBE (got ++ [b])), [])
  | .body n, b => (rest (n - 1), [b])
  | .endMark, b => (.ended b, [])
  | .ended st, _ => (.ended st, [])

def Frame.run : Frame → List (BitVec 8) → Frame × List (BitVec 8)
  | f, [] => (f, [])
  | f, b :: bs => (((f.feed b).1.run bs).1, (f.feed b).2 ++ ((f.feed b).1.run bs).2)

/-- Where a stream stands after these bytes. -/
def frame (bs : List (BitVec 8)) : Frame := ((Frame.header []).run bs).1

/-- The data in these bytes. -/
def payload (bs : List (BitVec 8)) : List (BitVec 8) := ((Frame.header []).run bs).2

variable {bs cs got : List (BitVec 8)} {n : Nat}

theorem Frame.run_append (f : Frame) :
    f.run (bs ++ cs) = (((f.run bs).1.run cs).1, (f.run bs).2 ++ ((f.run bs).1.run cs).2) := by
  induction bs generalizing f with
  | nil => rfl
  | cons b bs ih => simp only [List.cons_append, Frame.run, ih, List.append_assoc]

theorem frame_append : frame (bs ++ cs) = ((frame bs).run cs).1 := by
  rw [frame, Frame.run_append, frame]

theorem payload_append : payload (bs ++ cs) = payload bs ++ ((frame bs).run cs).2 := by
  rw [payload, Frame.run_append, payload, frame]

/-- A length that is not complete. -/
theorem run_header_short (h : got.length + bs.length < 4) :
    (Frame.header got).run bs = (.header (got ++ bs), []) := by
  induction bs generalizing got with
  | nil => rw [Frame.run, List.append_nil]
  | cons b bs ih =>
    rw [List.length_cons] at h
    have hrest := @ih (got ++ [b]) (by rw [List.length_append, List.length_singleton]; omega)
    simp only [Frame.run, Frame.feed, if_pos (by omega : got.length < 3), hrest, List.append_assoc,
      List.singleton_append, List.append_nil]

/-- A length that has just been completed. -/
theorem run_header_full (hgot : got.length < 4) (h : got.length + bs.length = 4) :
    (Frame.header got).run bs = (announced (ofBytesBE (got ++ bs)), []) := by
  obtain ⟨front, b, rfl⟩ : ∃ front b, bs = front ++ [b] :=
    ⟨bs.dropLast, bs.getLast (by rintro rfl; rw [List.length_nil] at h; omega),
      (List.dropLast_concat_getLast _).symm⟩
  rw [List.length_append, List.length_singleton] at h
  have hfront := @run_header_short front got (by omega)
  have hlast : ¬ (got ++ front).length < 3 := by
    rw [List.length_append]
    omega
  rw [Frame.run_append, hfront]
  simp only [Frame.run, Frame.feed, if_neg hlast, List.append_nil, List.append_assoc]

/-- Bytes of a record. -/
theorem run_rest (h : bs.length ≤ n) : (rest n).run bs = (rest (n - bs.length), bs) := by
  induction bs generalizing n with
  | nil => rw [Frame.run, List.length_nil, Nat.sub_zero]
  | cons b bs ih =>
    rw [List.length_cons] at h ⊢
    have hn : rest n = .body n := if_neg (by omega)
    rw [hn]
    simp only [Frame.run, Frame.feed, ih (show bs.length ≤ n - 1 by omega), List.singleton_append,
      Nat.sub_sub, Nat.add_comm 1]

end SaneBackends.RecordStream
