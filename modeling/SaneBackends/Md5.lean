import SaneBackends.Cells
import SaneBackends.WordBytes

/-!
# MD5

`md5.c`, with which passwords are hashed: the compression of blocks of 64 bytes and the context that
collects the bytes of a message until there is a block.  The host has the low byte first, so `SWAP`
does nothing.
-/

namespace SaneBackends.Md5

open WordBytes

/-- A word, its low byte first. -/
def bytesLE (v : BitVec 32) : List SaneByte := (bytesBE v).reverse

def ofBytesLE (bs : List SaneByte) : BitVec 32 := ofBytesBE bs.reverse

/-- The variables `A` to `D`. -/
structure Hash where
  a : BitVec 32
  b : BitVec 32
  c : BitVec 32
  d : BitVec 32
deriving DecidableEq

/-- `struct md5_ctx`. -/
structure Md5Ctx where
  hash : Hash
  total0 : BitVec 32
  total1 : BitVec 32
  buflen : Nat
  buffer : List SaneByte
deriving DecidableEq

/-! ### The compression -/

abbrev RoundFunction := BitVec 32 → BitVec 32 → BitVec 32 → BitVec 32

def ff : RoundFunction := fun b c d => d ^^^ (b &&& (c ^^^ d))

def fg : RoundFunction := fun b c d => ff d b c

def fh : RoundFunction := fun b c d => b ^^^ c ^^^ d

def fi : RoundFunction := fun b c d => c ^^^ (b ||| ~~~d)

def cyclic (w : BitVec 32) (s : Nat) : BitVec 32 := (w <<< s) ||| (w >>> (32 - s))

/-- `OP`.  The next one is called with the variables moved on by one place, `A` taking the place of
    `B`; so the new value goes there. -/
def op (f : RoundFunction) (h : Hash) (word : BitVec 32) (s : Nat) (t : BitVec 32) : Hash :=
  ⟨h.d, cyclic (h.a + (f h.b h.c h.d + word + t)) s + h.b, h.b, h.c⟩

/-- An `OP` of the source: the index of the word, the count of the rotation and the constant. -/
structure Operation where
  k : Nat
  s : Nat
  t : BitVec 32

def round1 : List Operation :=
  [⟨0, 7, 0xd76aa478⟩, ⟨1, 12, 0xe8c7b756⟩, ⟨2, 17, 0x242070db⟩, ⟨3, 22, 0xc1bdceee⟩,
    ⟨4, 7, 0xf57c0faf⟩, ⟨5, 12, 0x4787c62a⟩, ⟨6, 17, 0xa8304613⟩, ⟨7, 22, 0xfd469501⟩,
    ⟨8, 7, 0x698098d8⟩, ⟨9, 12, 0x8b44f7af⟩, ⟨10, 17, 0xffff5bb1⟩, ⟨11, 22, 0x895cd7be⟩,
    ⟨12, 7, 0x6b901122⟩, ⟨13, 12, 0xfd987193⟩, ⟨14, 17, 0xa679438e⟩, ⟨15, 22, 0x49b40821⟩]

def round2 : List Operation :=
  [⟨1, 5, 0xf61e2562⟩, ⟨6, 9, 0xc040b340⟩, ⟨11, 14, 0x265e5a51⟩, ⟨0, 20, 0xe9b6c7aa⟩,
    ⟨5, 5, 0xd62f105d⟩, ⟨10, 9, 0x02441453⟩, ⟨15, 14, 0xd8a1e681⟩, ⟨4, 20, 0xe7d3fbc8⟩,
    ⟨9, 5, 0x21e1cde6⟩, ⟨14, 9, 0xc33707d6⟩, ⟨3, 14, 0xf4d50d87⟩, ⟨8, 20, 0x455a14ed⟩,
    ⟨13, 5, 0xa9e3e905⟩, ⟨2, 9, 0xfcefa3f8⟩, ⟨7, 14, 0x676f02d9⟩, ⟨12, 20, 0x8d2a4c8a⟩]

def round3 : List Operation :=
  [⟨5, 4, 0xfffa3942⟩, ⟨8, 11, 0x8771f681⟩, ⟨11, 16, 0x6d9d6122⟩, ⟨14, 23, 0xfde5380c⟩,
    ⟨1, 4, 0xa4beea44⟩, ⟨4, 11, 0x4bdecfa9⟩, ⟨7, 16, 0xf6bb4b60⟩, ⟨10, 23, 0xbebfbc70⟩,
    ⟨13, 4, 0x289b7ec6⟩, ⟨0, 11, 0xeaa127fa⟩, ⟨3, 16, 0xd4ef3085⟩, ⟨6, 23, 0x04881d05⟩,
    ⟨9, 4, 0xd9d4d039⟩, ⟨12, 11, 0xe6db99e5⟩, ⟨15, 16, 0x1fa27cf8⟩, ⟨2, 23, 0xc4ac5665⟩]

def round4 : List Operation :=
  [⟨0, 6, 0xf4292244⟩, ⟨7, 10, 0x432aff97⟩, ⟨14, 15, 0xab9423a7⟩, ⟨5, 21, 0xfc93a039⟩,
    ⟨12, 6, 0x655b59c3⟩, ⟨3, 10, 0x8f0ccc92⟩, ⟨10, 15, 0xffeff47d⟩, ⟨1, 21, 0x85845dd1⟩,
    ⟨8, 6, 0x6fa87e4f⟩, ⟨15, 10, 0xfe2ce6e0⟩, ⟨6, 15, 0xa3014314⟩, ⟨13, 21, 0x4e0811a1⟩,
    ⟨4, 6, 0xf7537e82⟩, ⟨11, 10, 0xbd3af235⟩, ⟨2, 15, 0x2ad7d2bb⟩, ⟨9, 21, 0xeb86d391⟩]

/-- The operations of a round. -/
def runRound (f : RoundFunction) (words : List (BitVec 32)) (round : List Operation) (h : Hash) :
    Hash :=
  round.foldl (fun h o => op f h (words.getD o.k 0) o.s o.t) h

/-- One turn of the loop of `md5_process_block`, with the sixteen words of the block. -/
def compress (h : Hash) (words : List (BitVec 32)) : Hash :=
  let r := runRound fi words round4 (runRound fh words round3 (runRound fg words round2
    (runRound ff words round1 h)))
  ⟨r.a + h.a, r.b + h.b, r.c + h.c, r.d + h.d⟩

/-- The words that stand in `bytes`, `n` of them. -/
def wordsOf (bytes : List SaneByte) : Nat → List (BitVec 32)
  | 0 => []
  | n + 1 => ofBytesLE (bytes.take 4) :: wordsOf (bytes.drop 4) n

/-- `while (words < endp)`, for as many turns, from byte `pos` on. -/
def blockLoop (buffer : List SaneByte) : Nat → Nat → Hash → Except Fault Hash
  | 0, _, h => .ok h
  | turns + 1, pos, h => do
    let block ← loadCells buffer pos 64
    blockLoop buffer turns (pos + 64) (compress h (wordsOf block 16))

/-! ### The context -/

def initial : Hash := ⟨0x67452301, 0xefcdab89, 0x98badcfe, 0x10325476⟩

/-- `md5_init_ctx`; nothing is stored into the buffer. -/
def md5InitCtx (buffer : List SaneByte) : Md5Ctx where
  hash := initial
  total0 := 0
  total1 := 0
  buflen := 0
  buffer := buffer

/-- "Do a double word increment." -/
def Md5Ctx.addTotal (ctx : Md5Ctx) (len : Nat) : Md5Ctx :=
  let total0 := ctx.total0 + BitVec.ofNat 32 len
  { ctx with total0, total1 := if total0.toNat < len then ctx.total1 + 1 else ctx.total1 }

def md5ProcessBlock (buffer : List SaneByte) (len : Nat) (ctx : Md5Ctx) : Except Fault Md5Ctx := do
  let nwords := len / 4
  let hash ← blockLoop buffer ((nwords + 15) / 16) 0 ctx.hash
  return { ctx.addTotal len with hash }

/-- `while (len > 64)`: what is not aligned is copied to the buffer first. -/
def unalignedLoop : Nat → List SaneByte → Md5Ctx → Except Fault (List SaneByte × Md5Ctx)
  | 0, input, ctx => .ok (input, ctx)
  | fuel + 1, input, ctx =>
    if 64 < input.length then do
      let piece ← loadCells input 0 64
      let buffer ← storeCells ctx.buffer 0 piece
      let ctx ← md5ProcessBlock buffer 64 { ctx with buffer }
      unalignedLoop fuel (input.drop 64) ctx
    else .ok (input, ctx)

/-- "Process available complete blocks." -/
def completeBlocks (unaligned : Bool) (input : List SaneByte) (ctx : Md5Ctx) :
    Except Fault (List SaneByte × Md5Ctx) :=
  if input.length < 64 then .ok (input, ctx)
  else if unaligned then unalignedLoop input.length input ctx
  else do
    let ctx ← md5ProcessBlock input (input.length / 64 * 64) ctx
    return (input.drop (input.length / 64 * 64), ctx)

/-- "When we already have some bits in our internal buffer concatenate both inputs first." -/
def concatenate (input : List SaneByte) (ctx : Md5Ctx) : Except Fault (List SaneByte × Md5Ctx) :=
  if ctx.buflen = 0 then .ok (input, ctx)
  else do
    let leftOver := ctx.buflen
    let add := if input.length < 128 - leftOver then input.length else 128 - leftOver
    let buffer ← storeCells ctx.buffer leftOver (input.take add)
    let ctx := { ctx with buffer, buflen := leftOver + add }
    if 64 < ctx.buflen then
      let ctx ← md5ProcessBlock ctx.buffer (ctx.buflen / 64 * 64) ctx
      let rest ← loadCells ctx.buffer ((leftOver + add) / 64 * 64) (ctx.buflen % 64)
      let buffer ← storeCells ctx.buffer 0 rest
      return (input.drop add, { ctx with buffer, buflen := ctx.buflen % 64 })
    else return (input.drop add, ctx)

/-- "Move remaining bytes in internal buffer." -/
def moveRemaining (input : List SaneByte) (ctx : Md5Ctx) : Except Fault Md5Ctx := do
  let leftOver := ctx.buflen + input.length
  let buffer ← storeCells ctx.buffer ctx.buflen input
  if 64 ≤ leftOver then
    let ctx ← md5ProcessBlock buffer 64 { ctx with buffer }
    let rest ← loadCells ctx.buffer 64 (leftOver - 64)
    let buffer ← storeCells ctx.buffer 0 rest
    return { ctx with buffer, buflen := leftOver - 64 }
  else return { ctx with buffer, buflen := leftOver }

/-- `md5_process_bytes`.  Whether the bytes behind the first ones are aligned is `unaligned`. -/
def md5ProcessBytes (unaligned : Bool) (input : List SaneByte) (ctx : Md5Ctx) :
    Except Fault Md5Ctx := do
  let (input, ctx) ← concatenate input ctx
  let (input, ctx) ← completeBlocks unaligned input ctx
  if 0 < input.length then moveRemaining input ctx else .ok ctx

def Hash.bytes (h : Hash) : List SaneByte :=
  bytesLE h.a ++ bytesLE h.b ++ bytesLE h.c ++ bytesLE h.d

def md5ReadCtx (ctx : Md5Ctx) : List SaneByte := ctx.hash.bytes

def fillbuf : List SaneByte := 0x80 :: List.replicate 63 0

/-- What `md5_finish_ctx` stores behind the bytes of the buffer. -/
def Md5Ctx.storeFinish (ctx : Md5Ctx) (pad : Nat) : Except Fault (List SaneByte) := do
  let fill ← loadCells fillbuf 0 pad
  let buffer ← storeCells ctx.buffer ctx.buflen fill
  let buffer ← storeCells buffer (ctx.buflen + pad) (bytesLE (ctx.total0 <<< 3))
  storeCells buffer (ctx.buflen + pad + 4) (bytesLE ((ctx.total1 <<< 3) ||| (ctx.total0 >>> 29)))

def md5FinishCtx (ctx : Md5Ctx) : Except Fault (List SaneByte) := do
  let bytes := ctx.buflen
  let ctx := ctx.addTotal bytes
  let pad := if 56 ≤ bytes then 64 + 56 - bytes else 56 - bytes
  let buffer ← ctx.storeFinish pad
  let ctx ← md5ProcessBlock buffer (bytes + pad + 8) { ctx with buffer }
  return md5ReadCtx ctx

/-- The calls of `md5_process_bytes` for the pieces of a message. -/
def processAll (pieces : List (Bool × List SaneByte)) (ctx : Md5Ctx) : Except Fault Md5Ctx :=
  pieces.foldlM (fun ctx piece => md5ProcessBytes piece.1 piece.2 ctx) ctx

def md5Buffer (unaligned : Bool) (input scratch : List SaneByte) :
    Except Fault (List SaneByte) := do
  md5FinishCtx (← md5ProcessBytes unaligned input (md5InitCtx scratch))

end SaneBackends.Md5
