import SaneBackends.Md5
import SaneBackends.BlockFold
import SaneBackends.InPlace

/-!
# MD5 of a message that comes in pieces

A context has taken in full blocks of the message, and the rest of what it has been given waits in
its buffer.  So the checksum does not depend on the pieces.
-/

namespace SaneBackends.Md5

open BlockFold FaultState Overwrite WordBytes

/-! ### The checksum of a message -/

def blockHash (h : Hash) (block : List SaneByte) : Hash := compress h (wordsOf block 16)

/-- What follows a message of `n` bytes: a bit, and zeros up to eight bytes in front of the end of a
    block. -/
def padding (n : Nat) : List SaneByte := 0x80 :: List.replicate ((119 - n % 64) % 64) 0

/-- The number of bits as a word of 64 bits. -/
def lengthBytes (n : Nat) : List SaneByte :=
  bytesLE (BitVec.ofNat 32 (8 * n)) ++ bytesLE (BitVec.ofNat 32 (8 * n / 2 ^ 32))

/-- The checksum of a whole message. -/
def digest (m : List SaneByte) : List SaneByte :=
  (absorb blockHash 64 initial (m ++ (padding m.length ++ lengthBytes m.length))).bytes

/-! ### Blocks -/

variable {ctx : Md5Ctx} {m done rest input buf : List SaneByte} {len : Nat}

theorem loadCells_ok {i n : Nat} (h : i + n ≤ buf.length) :
    loadCells buf i n = .ok (stretch buf i n) := if_pos h

theorem storeCells_ok {i : Nat} (h : i + input.length ≤ buf.length) :
    storeCells buf i input = .ok (overwrite buf i input) := if_pos h

theorem blockLoop_eq {turns pos : Nat} {h : Hash} (hbuf : pos + 64 * turns ≤ buf.length) :
    blockLoop buf turns pos h = .ok (foldBlocks blockHash 64 turns h (buf.drop pos)) := by
  induction turns generalizing pos h with
  | zero => rfl
  | succ turns ih =>
    rw [blockLoop, loadCells_ok (by omega), ok_bind, ih (by omega), foldBlocks_succ, List.drop_drop]
    rfl

/-- The full blocks in front are those that are taken in. -/
theorem foldBlocks_take {k : Nat} {h : Hash} (hbuf : 64 * k ≤ buf.length) :
    foldBlocks blockHash 64 k h buf = absorb blockHash 64 h (buf.take (64 * k)) := by
  have hlen : (buf.take (64 * k)).length = 64 * k := List.length_take_of_le hbuf
  have happend := @foldBlocks_append _ _ blockHash 64 h (buf.take (64 * k)) (buf.drop (64 * k)) k
    hlen 0
  rw [List.take_append_drop] at happend
  rw [absorb, hlen, Nat.mul_div_cancel_left k (by decide)]
  exact happend

/-- The full blocks that have been taken in, and their number of bytes. -/
structure Hashed (ctx : Md5Ctx) (done : List SaneByte) : Prop where
  hash : ctx.hash = absorb blockHash 64 initial done
  total : ctx.total0.toNat + 2 ^ 32 * ctx.total1.toNat = done.length % 2 ^ 64
  dvd : 64 ∣ done.length

/-- The double word is incremented with its carry. -/
theorem addTotal_eq (h : ctx.total0.toNat + 2 ^ 32 * ctx.total1.toNat = done.length % 2 ^ 64)
    (hlen : len < 2 ^ 32) :
    (ctx.addTotal len).total0.toNat + 2 ^ 32 * (ctx.addTotal len).total1.toNat =
      (done.length + len) % 2 ^ 64 := by
  have hlow := ctx.total0.isLt
  have hhigh := ctx.total1.isLt
  have hsum : (ctx.total0 + BitVec.ofNat 32 len).toNat = (ctx.total0.toNat + len) % 2 ^ 32 := by
    rw [BitVec.toNat_add, BitVec.toNat_ofNat, Nat.add_mod_mod]
  have hcarry : (ctx.total1 + 1).toNat = (ctx.total1.toNat + 1) % 2 ^ 32 := BitVec.toNat_add ..
  simp only [Md5Ctx.addTotal, hsum]
  split
  · rw [hcarry]
    omega
  · omega

theorem md5ProcessBlock_eq (hdvd : 64 ∣ len) (hlen : len ≤ buf.length) :
    md5ProcessBlock buf len ctx = .ok { ctx.addTotal len with
      hash := absorb blockHash 64 ctx.hash (buf.take len) } := by
  obtain ⟨k, rfl⟩ := hdvd
  have hturns : (64 * k / 4 + 15) / 16 = k := by omega
  rw [md5ProcessBlock, hturns, blockLoop_eq (by omega), ok_bind, List.drop_zero,
    foldBlocks_take hlen]
  rfl

theorem Hashed.processBlock (h : Hashed ctx done) (hdvd : 64 ∣ len) (hlen : len ≤ buf.length)
    (hsmall : len < 2 ^ 32) :
    ∃ ctx', md5ProcessBlock buf len ctx = .ok ctx' ∧ Hashed ctx' (done ++ buf.take len) ∧
      ctx'.buffer = ctx.buffer ∧ ctx'.buflen = ctx.buflen := by
  refine ⟨_, md5ProcessBlock_eq hdvd hlen, ⟨?_, ?_, ?_⟩, rfl, rfl⟩
  · rw [absorb_append (by decide) h.dvd, ← h.hash]
  · rw [List.length_append, List.length_take_of_le hlen]
    exact addTotal_eq h.total hsmall
  · rw [List.length_append, List.length_take_of_le hlen]
    exact Nat.dvd_add h.dvd hdvd

theorem Hashed.buffer (h : Hashed ctx done) (buffer : List SaneByte) (buflen : Nat) :
    Hashed { ctx with buffer, buflen } done := ⟨h.hash, h.total, h.dvd⟩

/-! ### The bytes that wait in the buffer -/

/-- The context has been given the message `m`. -/
structure Holds (ctx : Md5Ctx) (m : List SaneByte) : Prop where
  taken : ∃ done, m = done ++ ctx.buffer.take ctx.buflen ∧ Hashed ctx done
  buflen : ctx.buflen ≤ 64
  buffer : ctx.buffer.length = 128

theorem holds_md5InitCtx (h : buf.length = 128) : Holds (md5InitCtx buf) [] where
  taken := ⟨[], rfl, absorb_nil.symm, rfl, Nat.dvd_zero 64⟩
  buflen := Nat.zero_le 64
  buffer := h

/-- Nothing waits in the buffer. -/
theorem Holds.hashed (h : Holds ctx m) (hempty : ctx.buflen = 0) : Hashed ctx m := by
  obtain ⟨done, rfl, hdone⟩ := h.taken
  rw [hempty, List.take_zero, List.append_nil]
  exact hdone

theorem Hashed.holds (h : Hashed ctx done) (hempty : ctx.buflen = 0)
    (hbuffer : ctx.buffer.length = 128) : Holds ctx done where
  taken := ⟨done, by rw [hempty, List.take_zero, List.append_nil], h⟩
  buflen := by omega
  buffer := hbuffer

/-- Bytes behind the ones that wait are stored, and no block is complete. -/
theorem Holds.store (h : Holds ctx m) (hfits : ctx.buflen + input.length ≤ 64) :
    Holds { ctx with
      buffer := overwrite ctx.buffer ctx.buflen input
      buflen := ctx.buflen + input.length } (m ++ input) := by
  have hbuffer := h.buffer
  obtain ⟨done, hm, hdone⟩ := h.taken
  refine ⟨⟨done, ?_, hdone.buffer _ _⟩, hfits, ?_⟩
  · rw [take_overwrite (by omega), ← List.append_assoc, ← hm]
  · rw [length_overwrite (by omega)]
    exact hbuffer

/-- What stays of `n` bytes in the buffer when their full blocks are taken in. -/
theorem Hashed.shift {n : Nat} (h : Hashed ctx done) (hbuffer : ctx.buffer.length = 128)
    (hn : n ≤ 128) :
    ∃ ctx', md5ProcessBlock ctx.buffer (n / 64 * 64) ctx = .ok ctx' ∧ ctx'.buffer = ctx.buffer ∧
      ctx'.buflen = ctx.buflen ∧ Holds { ctx' with
        buffer := overwrite ctx.buffer 0 (stretch ctx.buffer (n / 64 * 64) (n % 64))
        buflen := n % 64 } (done ++ ctx.buffer.take n) := by
  obtain ⟨ctx', hrun, hdone, hbuf, hbuflen⟩ := h.processBlock
    (Nat.dvd_mul_left 64 (n / 64)) (show _ ≤ ctx.buffer.length by omega) (by omega)
  have hrest : (stretch ctx.buffer (n / 64 * 64) (n % 64)).length = n % 64 :=
    length_stretch (by omega)
  refine ⟨ctx', hrun, hbuf, hbuflen, ⟨⟨_, ?_, hdone.buffer _ _⟩, ?_, ?_⟩⟩
  · have hfront : (overwrite ctx.buffer 0 (stretch ctx.buffer (n / 64 * 64) (n % 64))).take (n % 64)
        = stretch ctx.buffer (n / 64 * 64) (n % 64) := by
      have := take_overwrite_zero ctx.buffer (stretch ctx.buffer (n / 64 * 64) (n % 64))
      rwa [hrest] at this
    have hsplit : ctx.buffer.take n = ctx.buffer.take (n / 64 * 64) ++
        stretch ctx.buffer (n / 64 * 64) (n % 64) := by
      rw [stretch, ← List.take_add]
      congr 1
      omega
    rw [hfront, hsplit, List.append_assoc]
  · change n % 64 ≤ 64
    omega
  · change (overwrite ctx.buffer 0 _).length = 128
    rw [length_overwrite (by omega)]
    exact hbuffer

/-! ### The parts of `md5_process_bytes` -/

/-- The first bytes go behind those that wait; if any are left then nothing waits. -/
theorem concatenate_ok (input : List SaneByte) (h : Holds ctx m) :
    ∃ rest ctx' taken, concatenate input ctx = .ok (rest, ctx') ∧
      input = taken ++ rest ∧ Holds ctx' (m ++ taken) ∧ (rest = [] ∨ ctx'.buflen = 0) := by
  by_cases hempty : ctx.buflen = 0
  · refine ⟨input, ctx, [], if_pos hempty, rfl, ?_, .inr hempty⟩
    rw [List.append_nil]
    exact h
  have hbuflen := h.buflen
  have hbuffer := h.buffer
  obtain ⟨add, hadd⟩ : ∃ add, add = if input.length < 128 - ctx.buflen then input.length
      else 128 - ctx.buflen := ⟨_, rfl⟩
  have hlen : (input.take add).length = add := by
    refine List.length_take_of_le ?_
    rw [hadd]
    split <;> omega
  have hroom : ctx.buflen + add ≤ 128 := by
    rw [hadd]
    split <;> omega
  have hstore : storeCells ctx.buffer ctx.buflen (input.take add) =
      .ok (overwrite ctx.buffer ctx.buflen (input.take add)) := storeCells_ok (by omega)
  have hstored : (overwrite ctx.buffer ctx.buflen (input.take add)).length = 128 := by
    rw [length_overwrite (by omega), hbuffer]
  have hsplit : input = input.take add ++ input.drop add := (List.take_append_drop add input).symm
  rw [concatenate, if_neg hempty]
  dsimp only
  rw [← hadd, hstore, ok_bind]
  by_cases hfull : 64 < ctx.buflen + add
  · obtain ⟨done, hm, hdone⟩ := h.taken
    obtain ⟨ctx', hrun, hbuf, hbuflen', hholds⟩ := (hdone.buffer (overwrite ctx.buffer ctx.buflen
      (input.take add)) (ctx.buflen + add)).shift hstored hroom
    have htake : (overwrite ctx.buffer ctx.buflen (input.take add)).take (ctx.buflen + add) =
        ctx.buffer.take ctx.buflen ++ input.take add := by
      have := @take_overwrite _ ctx.buffer ctx.buflen (input.take add) (by omega)
      rwa [hlen] at this
    dsimp only at hrun hbuf hbuflen' hholds
    rw [htake, ← List.append_assoc, ← hm] at hholds
    have hrest : (stretch (overwrite ctx.buffer ctx.buflen (input.take add))
        ((ctx.buflen + add) / 64 * 64) ((ctx.buflen + add) % 64)).length =
          (ctx.buflen + add) % 64 := length_stretch (by omega)
    refine ⟨input.drop add, _, input.take add, ?_, hsplit, hholds, ?_⟩
    · rw [if_pos hfull, hrun, ok_bind, hbuf, hbuflen', loadCells_ok (by omega), ok_bind,
        storeCells_ok (by omega), ok_bind]
      rfl
    · change _ ∨ (ctx.buflen + add) % 64 = 0
      by_cases hall : input.length < 128 - ctx.buflen
      · rw [if_pos hall] at hadd
        exact .inl (List.drop_eq_nil_of_le (by omega))
      · rw [if_neg hall] at hadd
        right
        omega
  · have hall : add = input.length := by
      by_cases hall : input.length < 128 - ctx.buflen
      · rw [hadd, if_pos hall]
      · rw [if_neg hall] at hadd
        omega
    rw [if_neg hfull]
    refine ⟨input.drop add, _, input.take add, rfl, hsplit, ?_, ?_⟩
    · rw [hall, List.take_length]
      exact h.store (by omega)
    · exact .inl (List.drop_eq_nil_of_le (by omega))

/-- While nothing waits, whole blocks are taken in one after the other. -/
theorem unalignedLoop_ok {fuel : Nat} (h : Hashed ctx done) (hbuffer : ctx.buffer.length = 128)
    (hempty : ctx.buflen = 0) (hfuel : input.length ≤ fuel) :
    ∃ rest ctx' taken, unalignedLoop fuel input ctx = .ok (rest, ctx') ∧ input = taken ++ rest ∧
      rest.length ≤ 64 ∧ Hashed ctx' (done ++ taken) ∧ ctx'.buffer.length = 128 ∧
      ctx'.buflen = 0 := by
  induction fuel generalizing ctx done input with
  | zero =>
    refine ⟨input, ctx, [], rfl, rfl, by omega, ?_, hbuffer, hempty⟩
    rw [List.append_nil]
    exact h
  | succ fuel ih =>
    rw [unalignedLoop]
    split
    · have hpiece : (stretch input 0 64).length = 64 := length_stretch (by omega)
      have hlen : (overwrite ctx.buffer 0 (stretch input 0 64)).length = 128 := by
        rw [length_overwrite (by omega), hbuffer]
      obtain ⟨ctx₁, hrun, hhashed, hbuf₁, hempty₁⟩ :=
        (h.buffer (overwrite ctx.buffer 0 (stretch input 0 64)) ctx.buflen).processBlock
          (Nat.dvd_refl 64)
          (show 64 ≤ (overwrite ctx.buffer 0 (stretch input 0 64)).length by omega) (by decide)
      have htake : (overwrite ctx.buffer 0 (stretch input 0 64)).take 64 = input.take 64 := by
        have := take_overwrite_zero ctx.buffer (stretch input 0 64)
        rwa [hpiece] at this
      rw [htake] at hhashed
      obtain ⟨rest, ctx', taken, hloop, hsplit, hrest, hhashed', hbuf', hempty'⟩ :=
        ih hhashed (by rw [hbuf₁]; exact hlen) (hempty₁.trans hempty)
          (show (input.drop 64).length ≤ fuel by rw [List.length_drop]; omega)
      refine ⟨rest, ctx', input.take 64 ++ taken, ?_, ?_, hrest, ?_, hbuf', hempty'⟩
      · rw [loadCells_ok (by omega), ok_bind, storeCells_ok (by omega), ok_bind, hrun, ok_bind]
        exact hloop
      · rw [List.append_assoc, ← hsplit, List.take_append_drop]
      · rw [← List.append_assoc]
        exact hhashed'
    · refine ⟨input, ctx, [], rfl, rfl, by omega, ?_, hbuffer, hempty⟩
      rw [List.append_nil]
      exact h

theorem completeBlocks_ok {unaligned : Bool} (h : Hashed ctx done)
    (hbuffer : ctx.buffer.length = 128) (hempty : ctx.buflen = 0) (hsmall : input.length < 2 ^ 32) :
    ∃ rest ctx' taken, completeBlocks unaligned input ctx = .ok (rest, ctx') ∧
      input = taken ++ rest ∧ rest.length ≤ 64 ∧ Hashed ctx' (done ++ taken) ∧
      ctx'.buffer.length = 128 ∧ ctx'.buflen = 0 := by
  by_cases hshort : input.length < 64
  · refine ⟨input, ctx, [], if_pos hshort, rfl, by omega, ?_, hbuffer, hempty⟩
    rw [List.append_nil]
    exact h
  rw [completeBlocks, if_neg hshort]
  cases unaligned with
  | true => exact unalignedLoop_ok h hbuffer hempty (Nat.le_refl _)
  | false =>
    obtain ⟨ctx', hrun, hhashed, hbuf, hempty'⟩ := h.processBlock
      (Nat.dvd_mul_left 64 (input.length / 64)) (show _ ≤ input.length by omega) (by omega)
    refine ⟨input.drop (input.length / 64 * 64), ctx', input.take (input.length / 64 * 64), ?_,
      (List.take_append_drop _ _).symm, ?_, hhashed, by rw [hbuf, hbuffer],
      hempty'.trans hempty⟩
    · rw [if_neg (by decide), hrun]
      rfl
    · rw [List.length_drop]
      omega

theorem moveRemaining_ok (h : Hashed ctx done) (hbuffer : ctx.buffer.length = 128)
    (hempty : ctx.buflen = 0) (hlen : input.length ≤ 64) :
    ∃ ctx', moveRemaining input ctx = .ok ctx' ∧ Holds ctx' (done ++ input) := by
  have hstored := (h.holds hempty hbuffer).store
    (show ctx.buflen + input.length ≤ 64 by omega)
  have hbuf : (overwrite ctx.buffer ctx.buflen input).length = 128 := hstored.buffer
  rw [moveRemaining, storeCells_ok (by omega), ok_bind]
  by_cases hfull : 64 ≤ ctx.buflen + input.length
  · have hn : ctx.buflen + input.length = 64 := by omega
    obtain ⟨ctx', hrun, hbuf', -, hholds⟩ := (h.buffer (overwrite ctx.buffer ctx.buflen input)
      ctx.buflen).shift (n := 64) hbuf (by decide)
    have htake := @take_overwrite _ ctx.buffer ctx.buflen input (by omega)
    rw [hn, hempty, List.take_zero, List.nil_append] at htake
    dsimp only at hrun hbuf' hholds
    rw [hempty, htake] at hholds
    refine ⟨_, ?_, hholds⟩
    rw [if_pos hfull, hrun, ok_bind, hbuf', hn, loadCells_ok (by omega), ok_bind,
      storeCells_ok (by rw [length_stretch (by omega)]; omega), ok_bind, hempty]
    rfl
  · rw [if_neg hfull]
    exact ⟨_, rfl, hstored⟩

/-! ### Messages in pieces -/

/-- A piece goes behind what the context has been given. -/
theorem md5ProcessBytes_holds (unaligned : Bool) (h : Holds ctx m)
    (hsmall : input.length < 2 ^ 32) :
    ∃ ctx', md5ProcessBytes unaligned input ctx = .ok ctx' ∧ Holds ctx' (m ++ input) := by
  obtain ⟨rest, ctx₁, taken, hrun, hsplit, hholds, hrest⟩ := concatenate_ok input h
  rw [md5ProcessBytes, hrun, ok_bind]
  dsimp only
  rcases hrest with rfl | hempty
  · refine ⟨ctx₁, rfl, ?_⟩
    rw [hsplit, List.append_nil]
    exact hholds
  · have hrestlen : rest.length ≤ input.length := by
      rw [hsplit, List.length_append]
      omega
    obtain ⟨rest', ctx₂, taken', hrun', hsplit', hlen, hhashed, hbuffer, hempty'⟩ :=
      @completeBlocks_ok _ _ rest unaligned (hholds.hashed hempty) hholds.buffer hempty (by omega)
    rw [hrun', ok_bind]
    dsimp only
    rw [hsplit, hsplit', ← List.append_assoc, ← List.append_assoc]
    split
    · exact moveRemaining_ok hhashed hbuffer hempty' hlen
    · have hnil : rest' = [] := List.eq_nil_of_length_eq_zero (by omega)
      rw [hnil, List.append_nil]
      exact ⟨ctx₂, rfl, hhashed.holds hempty' hbuffer⟩

/-- All pieces of a message. -/
theorem processAll_holds {pieces : List (Bool × List SaneByte)} (h : Holds ctx m)
    (hsmall : ∀ piece ∈ pieces, piece.2.length < 2 ^ 32) :
    ∃ ctx', processAll pieces ctx = .ok ctx' ∧ Holds ctx' (m ++ pieces.flatMap Prod.snd) := by
  induction pieces generalizing ctx m with
  | nil =>
    refine ⟨ctx, rfl, ?_⟩
    rw [List.flatMap_nil, List.append_nil]
    exact h
  | cons piece pieces ih =>
    obtain ⟨ctx₁, hrun, hholds⟩ :=
      md5ProcessBytes_holds piece.1 h (hsmall piece List.mem_cons_self)
    obtain ⟨ctx', hrest, hholds'⟩ := ih hholds fun p hp => hsmall p (List.mem_cons_of_mem _ hp)
    refine ⟨ctx', ?_, ?_⟩
    · rw [processAll, List.foldlM_cons, hrun, ok_bind]
      exact hrest
    · rw [List.flatMap_cons, ← List.append_assoc]
      exact hholds'

/-! ### The end of the message -/

theorem length_bytesLE (v : BitVec 32) : (bytesLE v).length = 4 := rfl

/-- The two words of the number of bits. -/
theorem lengthBytes_eq {t₀ t₁ : BitVec 32} {n : Nat}
    (h : t₀.toNat + 2 ^ 32 * t₁.toNat = n % 2 ^ 64) :
    bytesLE (t₀ <<< 3) ++ bytesLE ((t₁ <<< 3) ||| (t₀ >>> 29)) = lengthBytes n := by
  have hlow := t₀.isLt
  have hhigh := t₁.isLt
  have h₀ : t₀ <<< 3 = BitVec.ofNat 32 (8 * n) := by
    apply BitVec.eq_of_toNat_eq
    rw [BitVec.toNat_shiftLeft, BitVec.toNat_ofNat, Nat.shiftLeft_eq]
    omega
  have h₁ : (t₁ <<< 3) ||| (t₀ >>> 29) = BitVec.ofNat 32 (8 * n / 2 ^ 32) := by
    apply BitVec.eq_of_toNat_eq
    have hshift : (t₁ <<< 3).toNat = 2 ^ 3 * (t₁.toNat % 2 ^ 29) := by
      rw [BitVec.toNat_shiftLeft, Nat.shiftLeft_eq]
      omega
    have htop : (t₀ >>> 29).toNat = t₀.toNat / 2 ^ 29 := by
      rw [BitVec.toNat_ushiftRight, Nat.shiftRight_eq_div_pow]
    rw [BitVec.toNat_or, hshift, htop, ← Nat.two_pow_add_eq_or_of_lt (by omega),
      BitVec.toNat_ofNat]
    omega
  rw [lengthBytes, h₀, h₁]

theorem fillbuf_eq {bytes n : Nat} (hbytes : bytes ≤ 64) (hn : n % 64 = bytes % 64) :
    stretch fillbuf 0 (if 56 ≤ bytes then 64 + 56 - bytes else 56 - bytes) = padding n := by
  have hpad : (if 56 ≤ bytes then 64 + 56 - bytes else 56 - bytes) = (119 - n % 64) % 64 + 1 := by
    split <;> omega
  rw [hpad, stretch, List.drop_zero, fillbuf, List.take_succ_cons, List.take_replicate, padding,
    Nat.min_eq_left (by omega)]

/-- The three stores are one. -/
theorem storeFinish_eq {pad n : Nat} (hbytes : ctx.buflen ≤ 64) (hbuffer : ctx.buffer.length = 128)
    (hpad : pad = if 56 ≤ ctx.buflen then 64 + 56 - ctx.buflen else 56 - ctx.buflen)
    (hn : n % 64 = ctx.buflen % 64)
    (htotal : ctx.total0.toNat + 2 ^ 32 * ctx.total1.toNat = n % 2 ^ 64) :
    ctx.storeFinish pad =
      .ok (overwrite ctx.buffer ctx.buflen (padding n ++ lengthBytes n)) := by
  have hroom : pad ≤ 64 ∧ ctx.buflen + pad ≤ 120 := by
    split at hpad <;> omega
  have hfill : stretch fillbuf 0 pad = padding n := by
    rw [hpad]
    exact fillbuf_eq hbytes hn
  have hfilled : 0 + pad ≤ fillbuf.length := by
    rw [Nat.zero_add]
    exact hroom.1
  have hfilllen : (padding n).length = pad := by
    rw [← hfill]
    exact length_stretch hfilled
  have hlow := length_bytesLE (ctx.total0 <<< 3)
  have hhigh := length_bytesLE ((ctx.total1 <<< 3) ||| (ctx.total0 >>> 29))
  have hlen₁ : (overwrite ctx.buffer ctx.buflen (padding n)).length = 128 := by
    rw [length_overwrite (by omega), hbuffer]
  have hlen₂ : (overwrite ctx.buffer ctx.buflen (padding n ++ bytesLE (ctx.total0 <<< 3))).length
      = 128 := by
    rw [length_overwrite (by rw [List.length_append]; omega), hbuffer]
  have hstore₂ := @InPlace.overwrite_append _ ctx.buffer (padding n) (bytesLE (ctx.total0 <<< 3))
    ctx.buflen (by omega)
  have hstore₃ := @InPlace.overwrite_append _ ctx.buffer (padding n ++ bytesLE (ctx.total0 <<< 3))
    (bytesLE ((ctx.total1 <<< 3) ||| (ctx.total0 >>> 29))) ctx.buflen
    (by rw [List.length_append]; omega)
  rw [hfilllen] at hstore₂
  rw [List.length_append, hfilllen, hlow, ← Nat.add_assoc, List.append_assoc,
    lengthBytes_eq htotal] at hstore₃
  rw [Md5Ctx.storeFinish, loadCells_ok hfilled, ok_bind, hfill, storeCells_ok (by omega), ok_bind,
    storeCells_ok (by omega), ok_bind, ← hstore₂, storeCells_ok (by omega), ← hstore₃]

/-- The context gives the checksum of the message. -/
theorem md5FinishCtx_eq (h : Holds ctx m) : md5FinishCtx ctx = .ok (digest m) := by
  have hbuflen := h.buflen
  have hbuffer := h.buffer
  obtain ⟨done, hm, hdone⟩ := h.taken
  have hlength : m.length = done.length + ctx.buflen := by
    rw [hm, List.length_append, List.length_take_of_le (by omega)]
  have hmod : m.length % 64 = ctx.buflen % 64 := by
    obtain ⟨k, hk⟩ := hdone.dvd
    omega
  have htotal := addTotal_eq hdone.total (show ctx.buflen < 2 ^ 32 by omega)
  rw [← hlength] at htotal
  obtain ⟨pad, hpad⟩ : ∃ pad, pad = if 56 ≤ ctx.buflen then 64 + 56 - ctx.buflen
      else 56 - ctx.buflen := ⟨_, rfl⟩
  have hroom : ctx.buflen + pad ≤ 120 ∧ 64 ∣ ctx.buflen + pad + 8 := by
    split at hpad <;> omega
  have hstore := @storeFinish_eq (ctx.addTotal ctx.buflen) pad m.length hbuflen hbuffer hpad hmod
    htotal
  have hlast : (padding m.length ++ lengthBytes m.length).length = pad + 8 := by
    rw [List.length_append, padding, List.length_cons, List.length_replicate, lengthBytes,
      List.length_append, length_bytesLE, length_bytesLE]
    split at hpad <;> omega
  have hbuf : (overwrite ctx.buffer ctx.buflen (padding m.length ++ lengthBytes m.length)).length =
      128 := by
    rw [length_overwrite (by omega), hbuffer]
  have htake := @take_overwrite _ ctx.buffer ctx.buflen (padding m.length ++ lengthBytes m.length)
    (by omega)
  rw [hlast, ← Nat.add_assoc] at htake
  have hrun : md5FinishCtx ctx = .ok (absorb blockHash 64 ctx.hash (ctx.buffer.take ctx.buflen ++
      (padding m.length ++ lengthBytes m.length))).bytes := by
    rw [md5FinishCtx, ← hpad, hstore, ok_bind, ← htake]
    change (md5ProcessBlock (overwrite ctx.buffer ctx.buflen
      (padding m.length ++ lengthBytes m.length)) (ctx.buflen + pad + 8) _ >>= _) = _
    rw [md5ProcessBlock_eq hroom.2 (by omega)]
    rfl
  rw [hrun, digest, hdone.hash, ← absorb_append (by decide) hdone.dvd, ← List.append_assoc, ← hm]

theorem length_digest (m : List SaneByte) : (digest m).length = 16 := rfl

/-- The message in one piece. -/
theorem md5Buffer_eq (unaligned : Bool) {scratch : List SaneByte} (hscratch : scratch.length = 128)
    (hsmall : input.length < 2 ^ 32) : md5Buffer unaligned input scratch = .ok (digest input) := by
  obtain ⟨ctx, hrun, hholds⟩ :=
    md5ProcessBytes_holds unaligned (holds_md5InitCtx hscratch) hsmall
  rw [md5Buffer, hrun, ok_bind]
  exact md5FinishCtx_eq hholds

/-- However a message is cut into pieces, and whether they are aligned or not, no byte is read or
    stored outside of the arrays and the checksum is that of the whole message. -/
theorem md5_of_pieces (pieces : List (Bool × List SaneByte)) (scratch : List SaneByte)
    (hscratch : scratch.length = 128) (hsmall : ∀ piece ∈ pieces, piece.2.length < 2 ^ 32) :
    (processAll pieces (md5InitCtx scratch) >>= md5FinishCtx) =
      .ok (digest (pieces.flatMap Prod.snd)) := by
  obtain ⟨ctx, hrun, hholds⟩ := processAll_holds (holds_md5InitCtx hscratch) hsmall
  rw [hrun, ok_bind]
  exact md5FinishCtx_eq hholds

/-- "abc" in two pieces. -/
theorem md5_of_abc :
    (processAll [(true, [0x61]), (false, [0x62, 0x63])] (md5InitCtx (List.replicate 128 0)) >>=
      md5FinishCtx) = .ok (digest [0x61, 0x62, 0x63]) :=
  md5_of_pieces [(true, [0x61]), (false, [0x62, 0x63])] (List.replicate 128 0)
    List.length_replicate (by decide)

/-- The checksum of "abc". -/
example : digest [0x61, 0x62, 0x63] = [0x90, 0x01, 0x50, 0x98, 0x3c, 0xd2, 0x4f, 0xb0, 0xd6, 0x96,
    0x3f, 0x7d, 0x28, 0xe1, 0x7f, 0x72] := by
  decide +kernel

end SaneBackends.Md5
