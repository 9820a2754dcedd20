import Mathlib.Data.BitVec
import Mathlib.Tactic.IntervalCases

/-!
# Big-endian words

A 32-bit word and its four bytes, most significant byte first.  The two
directions are inverse to each other, so a word read back from its own bytes is
the word that was stored, and every four bytes are the bytes of exactly one word.
-/

namespace SaneBackends.WordBytes

/-- The four bytes of a word, most significant first. -/
def bytesBE (v : BitVec 32) : List (BitVec 8) :=
  [(v >>> 24).setWidth 8, (v >>> 16).setWidth 8, (v >>> 8).setWidth 8, (v >>> 0).setWidth 8]

/-- The word whose bytes are `b0 b1 b2 b3`, most significant first. -/
def wordBE (b0 b1 b2 b3 : BitVec 8) : BitVec 32 :=
  (b0.setWidth 32 <<< 24) ||| (b1.setWidth 32 <<< 16) ||| (b2.setWidth 32 <<< 8)
    ||| (b3.setWidth 32 <<< 0)

/-- Read a word from a list of exactly four bytes. -/
def ofBytesBE : List (BitVec 8) → BitVec 32
  | [b0, b1, b2, b3] => wordBE b0 b1 b2 b3
  | _ => 0

@[simp] theorem length_bytesBE (v : BitVec 32) : (bytesBE v).length = 4 := rfl

theorem bytesBE_wordBE (b0 b1 b2 b3 : BitVec 8) :
    bytesBE (wordBE b0 b1 b2 b3) = [b0, b1, b2, b3] := by
  unfold bytesBE wordBE
  simp only [List.cons.injEq, and_true]
  refine ⟨?_, ?_, ?_, ?_⟩ <;>
  · apply BitVec.eq_of_getLsbD_eq
    intro i hi
    interval_cases i <;> simp

@[simp] theorem ofBytesBE_bytesBE (v : BitVec 32) : ofBytesBE (bytesBE v) = v := by
  unfold bytesBE
  simp only [ofBytesBE, wordBE]
  apply BitVec.eq_of_getLsbD_eq
  intro i hi
  interval_cases i <;> simp

/-- Every four bytes are the bytes of the word they are read as. -/
theorem bytesBE_ofBytesBE {bs : List (BitVec 8)} (h : bs.length = 4) :
    bytesBE (ofBytesBE bs) = bs := by
  match bs, h with
  | [b0, b1, b2, b3], _ => exact bytesBE_wordBE b0 b1 b2 b3

theorem bytesBE_injective : Function.Injective bytesBE := by
  intro v u h
  have hread : ofBytesBE (bytesBE v) = ofBytesBE (bytesBE u) := congrArg ofBytesBE h
  simpa using hread

end SaneBackends.WordBytes
