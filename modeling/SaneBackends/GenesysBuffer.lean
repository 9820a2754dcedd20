import SaneBackends.LabelledRun
import SaneBackends.Overwrite
import SaneBackends.SaneTypes

/-!
# The buffers of the Genesys backend

`Genesys_Buffer` and its operations in `backend/genesys.c`.  It is not a ring buffer: what is
consumed is skipped at the front, and the rest is moved to the beginning of the block only
when a caller wants to write more than fits behind it.
-/

namespace SaneBackends.Genesys

open Overwrite LabelledRun

/-- The number of values of a `size_t`. -/
def SIZE_T : Nat := 2 ^ 64

/-- `Genesys_Buffer`.  Positions are offsets in the block. -/
structure GenesysBuffer where
  buffer : List SaneByte
  size : Nat
  pos : Nat
  avail : Nat
deriving DecidableEq, Repr

/-- `sanei_genesys_buffer_alloc`, with the block that `malloc` has returned. -/
def bufferAlloc (block : List SaneByte) : GenesysBuffer where
  buffer := block
  size := block.length
  pos := 0
  avail := 0

/-- `sanei_genesys_buffer_get_write_pos`; without a position it has returned `NULL`. -/
def getWritePos (buf : GenesysBuffer) (size : Nat) : Option Nat × GenesysBuffer :=
  if (buf.avail + size) % SIZE_T > buf.size then (none, buf)
  else
    let buf :=
      if (buf.pos + buf.avail + size) % SIZE_T > buf.size then
        { buf with
          buffer := overwrite buf.buffer 0 (stretch buf.buffer buf.pos buf.avail)
          pos := 0 }
      else buf
    (some (buf.pos + buf.avail), buf)

/-- `sanei_genesys_buffer_get_read_pos`. -/
def getReadPos (buf : GenesysBuffer) : Nat := buf.pos

/-- `sanei_genesys_buffer_produce`. -/
def bufferProduce (buf : GenesysBuffer) (size : Nat) : SaneStatus × GenesysBuffer :=
  if size > buf.size - buf.avail then (.inval, buf)
  else (.good, { buf with avail := buf.avail + size })

/-- `sanei_genesys_buffer_consume`. -/
def bufferConsume (buf : GenesysBuffer) (size : Nat) : SaneStatus × GenesysBuffer :=
  if size > buf.avail then (.inval, buf)
  else (.good, { buf with avail := buf.avail - size, pos := buf.pos + size })

namespace GenesysBuffer

/-- What a caller stores at a position it has got. -/
def store (buf : GenesysBuffer) (ptr : Nat) (bs : List SaneByte) : GenesysBuffer :=
  { buf with buffer := overwrite buf.buffer ptr bs }

/-- The bytes that are seen at the read position. -/
def content (buf : GenesysBuffer) : List SaneByte := stretch buf.buffer (getReadPos buf) buf.avail

/-- The bytes that are available lie inside the block. -/
structure Ok (buf : GenesysBuffer) : Prop where
  block : buf.buffer.length = buf.size
  fits : buf.pos + buf.avail ≤ buf.size

/-- What stands at offset `ptr` is behind the available bytes, with room for `n` more. -/
structure Grants (buf : GenesysBuffer) (ptr n : Nat) : Prop extends Ok buf where
  behind : ptr = buf.pos + buf.avail
  room : ptr + n ≤ buf.size

variable {buf : GenesysBuffer} {ptr n k : Nat}

theorem ok_alloc (block : List SaneByte) : (bufferAlloc block).Ok where
  block := rfl
  fits := Nat.zero_le _

theorem Ok.length_content (h : buf.Ok) : buf.content.length = buf.avail :=
  length_stretch (h.block ▸ h.fits)

theorem Ok.avail_le (h : buf.Ok) : buf.avail ≤ buf.size := by
  have := h.fits
  omega

/-! ### The operations -/

theorem getWritePos_null (hn : buf.size + n < SIZE_T) (h : buf.Ok)
    (hroom : buf.size - buf.avail < n) : getWritePos buf n = (none, buf) := by
  have := h.avail_le
  rw [getWritePos, if_pos]
  rw [Nat.mod_eq_of_lt (by omega)]
  omega

/-- If there is room, the position is behind the available bytes, which may have been moved. -/
theorem getWritePos_some (hn : buf.size + n < SIZE_T) (h : buf.Ok)
    (hroom : n ≤ buf.size - buf.avail) : ∃ ptr buf', getWritePos buf n = (some ptr, buf') ∧
      buf'.Grants ptr n ∧ buf'.content = buf.content ∧ buf'.size = buf.size ∧
      buf'.avail = buf.avail := by
  have hfits := h.fits
  have hblock := h.block
  rw [getWritePos, if_neg, Nat.mod_eq_of_lt (by omega)]
  · by_cases hmove : buf.pos + buf.avail + n > buf.size
    · have hlen : (stretch buf.buffer buf.pos buf.avail).length = buf.avail :=
        length_stretch (by omega)
      have hback := @stretch_overwrite _ buf.buffer 0 (stretch buf.buffer buf.pos buf.avail)
        (Nat.zero_le _)
      rw [hlen] at hback
      have hsame : (overwrite buf.buffer 0 (stretch buf.buffer buf.pos buf.avail)).length
          = buf.size := by
        rw [length_overwrite (by omega), hblock]
      rw [if_pos hmove]
      refine ⟨_, _, rfl, ?_, hback, rfl, rfl⟩
      constructor
      · constructor
        · exact hsame
        · dsimp only
          omega
      · rfl
      · dsimp only
        omega
    · rw [if_neg hmove]
      refine ⟨_, _, rfl, ?_, rfl, rfl, rfl⟩
      constructor
      · exact h
      · rfl
      · omega
  · rw [Nat.mod_eq_of_lt (by omega)]
    omega

/-- Storing what was granted leaves the available bytes alone. -/
theorem Grants.store (h : buf.Grants ptr n) {o : Nat} {bs : List SaneByte}
    (ho : o + bs.length ≤ n) :
    (buf.store (ptr + o) bs).Grants ptr n ∧ (buf.store (ptr + o) bs).content = buf.content := by
  have hblock := h.block
  have hbehind := h.behind
  have hroom := h.room
  have hlen : (overwrite buf.buffer (ptr + o) bs).length = buf.size := by
    rw [length_overwrite (by omega), hblock]
  constructor
  · exact ⟨⟨hlen, h.fits⟩, hbehind, hroom⟩
  · have hfront : getReadPos buf + buf.avail ≤ ptr + o := by
      rw [getReadPos]
      omega
    exact stretch_overwrite_before hfront (by omega)

/-- What stands behind the available bytes is appended to them. -/
theorem Grants.produce (h : buf.Grants ptr n) (hk : k ≤ n) : ∃ buf',
    bufferProduce buf k = (.good, buf') ∧ buf'.Grants (ptr + k) (n - k) ∧
      buf'.content = buf.content ++ stretch buf.buffer ptr k ∧ buf'.buffer = buf.buffer ∧
      buf'.size = buf.size ∧ buf'.avail = buf.avail + k := by
  have hbehind := h.behind
  have hroom := h.room
  rw [bufferProduce, if_neg (by omega)]
  refine ⟨_, rfl, ⟨⟨h.block, ?_⟩, ?_, ?_⟩, ?_, rfl, rfl, rfl⟩
  · dsimp only
    omega
  · dsimp only
    omega
  · dsimp only
    omega
  · rw [hbehind]
    exact stretch_add _ _ _ _

/-- The first bytes are dropped, and what was granted stays so. -/
theorem Ok.consume (h : buf.Ok) (hk : k ≤ buf.avail) : ∃ buf',
    bufferConsume buf k = (.good, buf') ∧ buf'.Ok ∧ buf'.content = buf.content.drop k ∧
      buf'.buffer = buf.buffer ∧ buf'.size = buf.size ∧ buf'.avail = buf.avail - k ∧
      buf'.pos + buf'.avail = buf.pos + buf.avail := by
  have hfits := h.fits
  rw [bufferConsume, if_neg (by omega)]
  refine ⟨_, rfl, ⟨h.block, ?_⟩, ?_, rfl, rfl, rfl, ?_⟩
  · dsimp only
    omega
  · exact (drop_stretch _ _ _ _).symm
  · dsimp only
    omega

end GenesysBuffer

/-! ### Any sequence of operations -/

inductive BufferOp where
  | getWritePos (size : Nat)
  | store (offset : Nat) (bs : List SaneByte)
  | produce (size : Nat)
  | consume (size : Nat)
  | getReadPos
deriving DecidableEq, Repr

/-- A buffer and what has been done with it.  `writePos` is where the next byte has to be
    stored, and `granted` the cells from there on that have been granted, with what the
    caller has stored in them. -/
structure BufferUse where
  buf : GenesysBuffer
  writePos : Nat
  granted : List SaneByte
  produced : List SaneByte
  consumed : Nat
deriving DecidableEq, Repr

/-- An operation with all that its caller has to observe: no request wraps around, and no
    more is stored or produced than granted, nor consumed than available. -/
def BufferUse.exec (u : BufferUse) : BufferOp → Option BufferUse
  | .getWritePos n =>
    if u.buf.size + n < SIZE_T then
      match getWritePos u.buf n with
      | (none, buf) => some { u with buf := buf }
      | (some ptr, buf) =>
        some { u with buf := buf, writePos := ptr, granted := stretch buf.buffer ptr n }
    else none
  | .store o bs =>
    if o + bs.length ≤ u.granted.length then
      some { u with buf := u.buf.store (u.writePos + o) bs, granted := overwrite u.granted o bs }
    else none
  | .produce k =>
    if k ≤ u.granted.length then
      some { u with
        buf := (bufferProduce u.buf k).2
        writePos := u.writePos + k
        granted := u.granted.drop k
        produced := u.produced ++ u.granted.take k }
    else none
  | .consume k =>
    if k ≤ u.buf.avail then
      some { u with buf := (bufferConsume u.buf k).2, consumed := u.consumed + k }
    else none
  | .getReadPos => some u

/-- The buffer is a queue of bytes, with room for what has been granted. -/
structure BufferUse.Fifo (size : Nat) (u : BufferUse) : Prop where
  grants : u.buf.Grants u.writePos u.granted.length
  cells : stretch u.buf.buffer u.writePos u.granted.length = u.granted
  content : u.buf.content = u.produced.drop u.consumed
  consumed_le : u.consumed ≤ u.produced.length
  size_eq : u.buf.size = size

variable {size : Nat} {u u' : BufferUse}

theorem BufferUse.Fifo.getWritePos (h : u.Fifo size) {n : Nat}
    (he : u.exec (.getWritePos n) = some u') : u'.Fifo size := by
  simp only [BufferUse.exec] at he
  split at he
  · rename_i hn
    rcases Nat.lt_or_ge (u.buf.size - u.buf.avail) n with hfull | hroom
    · rw [GenesysBuffer.getWritePos_null hn h.grants.toOk hfull] at he
      cases he
      exact h
    · obtain ⟨ptr, buf, hget, hgrants, hcontent, hsize, -⟩ :=
        GenesysBuffer.getWritePos_some hn h.grants.toOk hroom
      rw [hget] at he
      cases he
      have hlen : (stretch buf.buffer ptr n).length = n := by
        apply length_stretch
        rw [hgrants.block]
        exact hgrants.room
      constructor
      · dsimp only
        rwa [hlen]
      · dsimp only
        rw [hlen]
      · exact hcontent.trans h.content
      · exact h.consumed_le
      · exact hsize.trans h.size_eq
  · cases he

theorem BufferUse.Fifo.store (h : u.Fifo size) {o : Nat} {bs : List SaneByte}
    (he : u.exec (.store o bs) = some u') : u'.Fifo size := by
  simp only [BufferUse.exec] at he
  split at he
  · rename_i ho
    cases he
    obtain ⟨hgrants, hcontent⟩ := h.grants.store ho
    have hlen : (overwrite u.granted o bs).length = u.granted.length := length_overwrite ho
    have hroom := h.grants.room
    have hblock := h.grants.block
    constructor
    · dsimp only
      rwa [hlen]
    · dsimp only [GenesysBuffer.store]
      rw [hlen, stretch_overwrite_inside (by omega) ho, h.cells]
    · exact hcontent.trans h.content
    · exact h.consumed_le
    · exact h.size_eq
  · cases he

theorem BufferUse.Fifo.produce (h : u.Fifo size) {k : Nat}
    (he : u.exec (.produce k) = some u') :
    (bufferProduce u.buf k).1 = .good ∧ u'.Fifo size := by
  simp only [BufferUse.exec] at he
  split at he
  · rename_i hk
    cases he
    obtain ⟨buf, hproduce, hgrants, hcontent, hsame, hsize, -⟩ := h.grants.produce hk
    have hcells := h.cells
    rw [hproduce]
    refine ⟨rfl, ?_⟩
    constructor
    · dsimp only
      rwa [List.length_drop]
    · dsimp only
      rw [List.length_drop, hsame, ← drop_stretch, hcells]
    · dsimp only
      rw [hcontent, h.content, List.drop_append_of_le_length h.consumed_le, ← hcells,
        take_stretch hk]
    · dsimp only
      rw [List.length_append]
      exact Nat.le_add_right_of_le h.consumed_le
    · exact hsize.trans h.size_eq
  · cases he

theorem BufferUse.Fifo.consume (h : u.Fifo size) {k : Nat}
    (he : u.exec (.consume k) = some u') :
    (bufferConsume u.buf k).1 = .good ∧ u'.Fifo size := by
  simp only [BufferUse.exec] at he
  split at he
  · rename_i hk
    cases he
    obtain ⟨buf, hconsume, hok, hcontent, hsame, hsize, -, hend⟩ := h.grants.toOk.consume hk
    have hlen := h.grants.toOk.length_content
    have hle := h.consumed_le
    rw [h.content, List.length_drop] at hlen
    rw [hconsume]
    refine ⟨rfl, ?_⟩
    constructor
    · refine ⟨hok, ?_, ?_⟩
      · exact h.grants.behind.trans hend.symm
      · rw [hsize]
        exact h.grants.room
    · dsimp only
      rw [hsame]
      exact h.cells
    · dsimp only
      rw [hcontent, h.content, List.drop_drop]
    · dsimp only
      omega
    · exact hsize.trans h.size_eq
  · cases he

theorem BufferUse.Fifo.step (h : u.Fifo size) {op : BufferOp} (he : u.exec op = some u') :
    u'.Fifo size := by
  cases op with
  | getWritePos n => exact h.getWritePos he
  | store o bs => exact h.store he
  | produce k => exact (h.produce he).2
  | consume k => exact (h.consume he).2
  | getReadPos =>
    cases he
    exact h

def BufferUse.Step (u : BufferUse) (op : BufferOp) (u' : BufferUse) : Prop := u.exec op = some u'

end SaneBackends.Genesys
