import SaneBackends.SaneTypes
import Mathlib.Data.List.Infix

/-!
# Reading an image from a PIXMA scanner

`fill_pixels` and `pixma_read_image` of `backend/pixma_common.c`.  A subdriver delivers the
image in blocks; the caller reads it in pieces of any lengths.  If the subdriver ends the
image too early, it is filled up with white.
-/

namespace SaneBackends

/-- An error code; it is negative. -/
abbrev PixmaError := { e : Int // e < 0 }

def PIXMA_ECANCELED : PixmaError := ⟨-7, by decide⟩

/-- What `fill_buffer` returns: the block that `rptr` and `rend` delimit then, which is
    empty at the end of the image, or an error.  No subdriver fills the buffer of the
    caller itself. -/
inductive FillResult where
  | block (bs : List SaneByte)
  | error (e : PixmaError)
deriving DecidableEq, Repr

/-- The fields of `pixma_scan_param_t` that are used here.  The parameters are clipped to the
    size of the scanner, so that the size of an image is far below the bound. -/
structure ScanParam where
  imageSize : Nat
  imageSize_lt : imageSize < 2 ^ 63

/-- `pixma_t`.  `imagebuf` holds the bytes from `rptr` to `rend`, `driver` what the calls of
    `fill_buffer` are going to return; after that they return the end of the image.
    `finished` counts the calls of `finish_scan`. -/
structure PixmaT where
  param : ScanParam
  scanning : Bool
  cancel : Bool
  underrun : Bool
  curImageSize : Nat
  imagebuf : List SaneByte
  driver : List FillResult
  finished : Nat

/-- `pixma_scan`, when the subdriver has started the scan. -/
def pixmaScan (param : ScanParam) (driver : List FillResult) : PixmaT where
  param := param
  scanning := true
  cancel := false
  underrun := false
  curImageSize := 0
  imagebuf := []
  driver := driver
  finished := 0

/-- `fill_pixels`, with `room` bytes up to the end of the buffer. -/
def fillPixels (s : PixmaT) (room : Nat) (value : SaneByte) : List SaneByte × PixmaT :=
  if s.curImageSize < s.param.imageSize then
    let n := min (s.param.imageSize - s.curImageSize) room
    (List.replicate n value, { s with curImageSize := s.curImageSize + n })
  else ([], s)

/-- What follows when `fill_buffer` has returned 0. -/
def endOfImage (s : PixmaT) (room : Nat) : List SaneByte × PixmaT :=
  if s.curImageSize < s.param.imageSize then
    fillPixels { s with finished := s.finished + 1, underrun := true } room 0xff
  else ([], { s with finished := s.finished + 1, scanning := false })

/-- The label `cancel`. -/
def PixmaT.abort (s : PixmaT) : PixmaT := { s with finished := s.finished + 1, scanning := false }

structure ReadBlocks where
  error : Option PixmaError
  written : List SaneByte
  state : PixmaT

/-- The loop of `pixma_read_image`.  In each turn the rest of a block is copied, and then, if
    there is room left, another block is asked for. -/
def readBlocks (driver : List FillResult) (s : PixmaT) (room : Nat) : ReadBlocks :=
  let copied := s.imagebuf.take room
  let rest := room - copied.length
  let s := { s with imagebuf := s.imagebuf.drop room, driver := driver }
  if rest = 0 then ⟨none, copied, s⟩
  else
    match driver with
    | [] =>
        let r := endOfImage s rest
        ⟨none, copied ++ r.1, r.2⟩
    | .error e :: driver => ⟨some e, copied, { s with driver := driver }⟩
    | .block [] :: driver =>
        let r := endOfImage { s with driver := driver } rest
        ⟨none, copied ++ r.1, r.2⟩
    | .block (b :: bs) :: driver =>
        let size := s.curImageSize + (b :: bs).length
        let r := readBlocks driver { s with imagebuf := b :: bs, curImageSize := size } rest
        { r with written := copied ++ r.written }

/-- A length as an `int`. -/
def intOfLength (n : Nat) : Int := (BitVec.ofNat 32 n).toInt

/-- `pixma_read_image`: what it returns, what it has written to the buffer, and the state it
    leaves. -/
def pixmaReadImage (s : PixmaT) (len : Nat) : Int × List SaneByte × PixmaT :=
  if !s.scanning then (0, [], s)
  else if s.cancel then (PIXMA_ECANCELED, [], s.abort)
  else if s.underrun then
    if s.curImageSize < s.param.imageSize then
      let r := fillPixels s len 0xff
      (intOfLength r.1.length, r)
    else (0, [], { s with scanning := false })
  else
    let r := readBlocks s.driver s len
    match r.error with
    | some e => (e, r.written, { r.state.abort with imagebuf := s.imagebuf })
    | none => (intOfLength r.written.length, r.written, r.state)

/-- `pixma_cancel`, which a signal handler may call at any time; a call of `pixma_read_image`
    looks at the flag only once. -/
def pixmaCancel (s : PixmaT) : PixmaT := { s with cancel := true }

/-! ### Runs -/

inductive PixmaOp where
  | read (len : Nat)
  | cancel
deriving DecidableEq, Repr

/-- The state with the image bytes that have been returned so far, and whether an error has
    been returned or the scan has been cancelled. -/
structure PixmaRun where
  state : PixmaT
  out : List SaneByte
  halted : Bool

def PixmaRun.step (t : PixmaRun) : PixmaOp → PixmaRun
  | .read len =>
      let r := pixmaReadImage t.state len
      if r.1 < 0 then ⟨r.2.2, t.out, true⟩ else ⟨r.2.2, t.out ++ r.2.1, t.halted⟩
  | .cancel => ⟨pixmaCancel t.state, t.out, true⟩

def PixmaRun.all (param : ScanParam) (driver : List FillResult) (ops : List PixmaOp) : PixmaRun :=
  ops.foldl PixmaRun.step ⟨pixmaScan param driver, [], false⟩

/-! ### The image -/

/-- The blocks up to the end or an error, put together. -/
def blockBytes : List FillResult → List SaneByte
  | [] => []
  | .error _ :: _ => []
  | .block [] :: _ => []
  | .block (b :: bs) :: driver => b :: bs ++ blockBytes driver

/-- The error that ends the image, if it is one. -/
def endingError : List FillResult → Option PixmaError
  | [] => none
  | .error e :: _ => some e
  | .block [] :: _ => none
  | .block (_ :: _) :: driver => endingError driver

/-- The blocks, filled up with white. -/
def wholeImage (param : ScanParam) (driver : List FillResult) : List SaneByte :=
  blockBytes driver ++ List.replicate (param.imageSize - (blockBytes driver).length) 0xff

/-! ### What a call reads -/

theorem readBlocks_full {driver : List FillResult} {s : PixmaT} {room : Nat}
    (h : room ≤ s.imagebuf.length) :
    readBlocks driver s room =
      ⟨none, s.imagebuf.take room,
        { s with imagebuf := s.imagebuf.drop room, driver := driver }⟩ := by
  have hrest : room - (s.imagebuf.take room).length = 0 := by
    rw [List.length_take]
    omega
  unfold readBlocks
  simp only [hrest, ↓reduceIte]

/-- When there is room behind the rest of the block, another block is asked for. -/
theorem readBlocks_more {driver : List FillResult} {s : PixmaT} {room : Nat}
    (h : s.imagebuf.length < room) :
    readBlocks driver s room =
      match driver with
      | [] =>
          let r := endOfImage { s with imagebuf := [], driver := [] } (room - s.imagebuf.length)
          ⟨none, s.imagebuf ++ r.1, r.2⟩
      | .error e :: driver =>
          ⟨some e, s.imagebuf, { s with imagebuf := [], driver := driver }⟩
      | .block [] :: driver =>
          let r := endOfImage { s with imagebuf := [], driver := driver }
            (room - s.imagebuf.length)
          ⟨none, s.imagebuf ++ r.1, r.2⟩
      | .block (b :: bs) :: driver =>
          let r := readBlocks driver
            { s with
              imagebuf := b :: bs, driver := .block (b :: bs) :: driver
              curImageSize := s.curImageSize + (b :: bs).length }
            (room - s.imagebuf.length)
          { r with written := s.imagebuf ++ r.written } := by
  have htake : s.imagebuf.take room = s.imagebuf := List.take_of_length_le h.le
  have hdrop : s.imagebuf.drop room = [] := List.drop_eq_nil_of_le h.le
  have hrest : ¬ room - s.imagebuf.length = 0 := by omega
  conv_lhs => unfold readBlocks
  simp only [htake, hdrop, if_neg hrest]
  cases driver with
  | nil => rfl
  | cons r driver =>
    cases r with
    | error e => rfl
    | block bs => cases bs <;> rfl

/-- The loop ends because the buffer is full, at the end of the image, or with an error. -/
theorem readBlocks_cases (driver : List FillResult) (s : PixmaT) (room : Nat) :
    (∃ written buf rest cur,
      readBlocks driver s room = ⟨none, written,
        { s with imagebuf := buf, driver := rest, curImageSize := cur }⟩ ∧
      written.length = room ∧ written ++ buf ++ blockBytes rest = s.imagebuf ++ blockBytes driver ∧
      endingError rest = endingError driver ∧
      cur + s.imagebuf.length = s.curImageSize + written.length + buf.length) ∨
    (∃ rest, endingError driver = none ∧
      (s.imagebuf ++ blockBytes driver).length < room ∧
      let r := endOfImage { s with
          imagebuf := [], driver := rest
          curImageSize := s.curImageSize + (blockBytes driver).length }
        (room - (s.imagebuf ++ blockBytes driver).length)
      readBlocks driver s room = ⟨none, s.imagebuf ++ blockBytes driver ++ r.1, r.2⟩) ∨
    (∃ e written buf rest cur, endingError driver = some e ∧
      readBlocks driver s room = ⟨some e, written,
        { s with imagebuf := buf, driver := rest, curImageSize := cur }⟩ ∧
      cur ≤ s.curImageSize + (blockBytes driver).length) := by
  induction driver generalizing s room with
  | nil =>
    rcases Nat.lt_or_ge s.imagebuf.length room with hmore | hfull
    · right; left
      refine ⟨[], rfl, by simpa [blockBytes] using hmore, ?_⟩
      rw [readBlocks_more hmore]
      simp [blockBytes]
    · left
      exact ⟨_, _, _, _, readBlocks_full hfull, List.length_take_of_le hfull,
        by rw [List.take_append_drop], rfl, by simp; omega⟩
  | cons r driver ih =>
    rcases Nat.lt_or_ge s.imagebuf.length room with hmore | hfull
    · cases r with
      | error e =>
        right; right
        refine ⟨e, s.imagebuf, [], driver, s.curImageSize, rfl, ?_, Nat.le_add_right _ _⟩
        rw [readBlocks_more hmore]
      | block bs =>
        cases bs with
        | nil =>
          right; left
          refine ⟨driver, rfl, by simpa [blockBytes] using hmore, ?_⟩
          rw [readBlocks_more hmore]
          simp [blockBytes]
        | cons b bs =>
          have hblocks : blockBytes (.block (b :: bs) :: driver) = b :: bs ++ blockBytes driver :=
            rfl
          have hending : endingError (.block (b :: bs) :: driver) = endingError driver := rfl
          rw [readBlocks_more hmore, hblocks, hending]
          dsimp only
          rcases ih { s with
              imagebuf := b :: bs, driver := .block (b :: bs) :: driver
              curImageSize := s.curImageSize + (b :: bs).length } (room - s.imagebuf.length) with
            ⟨written, buf, rest, cur, hrun, hlen, hbytes, herr, hcur⟩ |
            ⟨rest, herr, hlen, hrun⟩ | ⟨e, written, buf, rest, cur, herr, hrun, hcur⟩
          · left
            refine ⟨s.imagebuf ++ written, buf, rest, cur, by rw [hrun], ?_, ?_, herr, ?_⟩
            · rw [List.length_append, hlen]
              omega
            · rw [List.append_assoc, List.append_assoc, ← List.append_assoc written, hbytes]
            · simp only [List.length_append] at hcur ⊢
              omega
          · right; left
            refine ⟨rest, herr, ?_, ?_⟩
            · simp only [List.length_append] at hlen ⊢
              omega
            · rw [hrun]
              simp only [List.length_append, List.append_assoc, Nat.sub_sub, Nat.add_assoc]
          · right; right
            refine ⟨e, s.imagebuf ++ written, buf, rest, cur, herr, by rw [hrun], ?_⟩
            simp only [List.length_append] at hcur ⊢
            omega
    · left
      exact ⟨_, _, _, _, readBlocks_full hfull, List.length_take_of_le hfull,
        by rw [List.take_append_drop], rfl, by simp; omega⟩

/-! ### What has been returned -/

theorem intOfLength_of_lt {n : Nat} (h : n < 2 ^ 31) : intOfLength n = n := by
  rw [intOfLength, BitVec.toInt_eq_toNat_of_lt] <;> rw [BitVec.toNat_ofNat] <;> omega

/-- Where a scan of `driver` is when `out` has been returned. -/
inductive PixmaRun.Inv (param : ScanParam) (driver : List FillResult) : PixmaRun → Prop
  /-- Blocks are read. -/
  | reading {s : PixmaT} {out : List SaneByte} (hparam : s.param = param)
      (hscanning : s.scanning = true) (hcancel : s.cancel = false) (hunderrun : s.underrun = false)
      (hbytes : out ++ s.imagebuf ++ blockBytes s.driver = blockBytes driver)
      (hending : endingError s.driver = endingError driver)
      (hcur : s.curImageSize = out.length + s.imagebuf.length) : Inv param driver ⟨s, out, false⟩
  /-- The image has ended too early. -/
  | padding {s : PixmaT} {out : List SaneByte} {k : Nat} (hparam : s.param = param)
      (hscanning : s.scanning = true) (hcancel : s.cancel = false) (hunderrun : s.underrun = true)
      (hending : endingError driver = none)
      (hout : out = blockBytes driver ++ List.replicate k 0xff) (hcur : s.curImageSize = out.length)
      (hle : s.curImageSize ≤ param.imageSize) : Inv param driver ⟨s, out, false⟩
  | complete {s : PixmaT} {out : List SaneByte} (hparam : s.param = param)
      (hscanning : s.scanning = false) (hending : endingError driver = none)
      (hout : out = wholeImage param driver) (hle : s.curImageSize ≤ param.imageSize) :
      Inv param driver ⟨s, out, false⟩
  /-- An error has been returned, or the scan has been cancelled. -/
  | halted {s : PixmaT} {out : List SaneByte} (hparam : s.param = param)
      (hstops : s.scanning = false ∨ s.cancel = true) (hout : out <+: wholeImage param driver)
      (hle : s.curImageSize ≤ param.imageSize) : Inv param driver ⟨s, out, true⟩

section Image

variable {param : ScanParam} {driver : List FillResult} {s : PixmaT} {out : List SaneByte}

theorem length_wholeImage (htotal : (blockBytes driver).length ≤ param.imageSize) :
    (wholeImage param driver).length = param.imageSize := by
  rw [wholeImage, List.length_append, List.length_replicate]
  omega

/-- Blocks that have been filled up with `k` white bytes are a beginning of the image. -/
theorem padded_prefix {k : Nat} (h : (blockBytes driver).length + k ≤ param.imageSize) :
    blockBytes driver ++ List.replicate k 0xff <+: wholeImage param driver := by
  refine (List.prefix_append_right_inj _).mpr ⟨List.replicate
    (param.imageSize - (blockBytes driver).length - k) 0xff, ?_⟩
  rw [List.replicate_append_replicate]
  congr 1
  omega

theorem PixmaRun.Inv.front {t : PixmaRun} (h : t.Inv param driver)
    (htotal : (blockBytes driver).length ≤ param.imageSize) :
    t.out <+: wholeImage param driver ∧ t.state.curImageSize ≤ param.imageSize := by
  cases h with
  | reading hparam hscanning hcancel hunderrun hbytes hending hcur =>
    constructor
    · rw [wholeImage, ← hbytes, List.append_assoc, List.append_assoc]
      exact List.prefix_append _ _
    · have hlen := congrArg List.length hbytes
      simp only [List.length_append] at hlen
      rw [hcur]
      omega
  | padding hparam hscanning hcancel hunderrun hending hout hcur hle =>
    refine ⟨?_, hle⟩
    subst hout
    apply padded_prefix
    rwa [hcur, List.length_append, List.length_replicate] at hle
  | complete hparam hscanning hending hout hle => exact ⟨hout ▸ List.prefix_refl _, hle⟩
  | halted hparam hstops hout hle => exact ⟨hout, hle⟩

theorem fillPixels_of_lt {room : Nat} {value : SaneByte} (h : s.curImageSize < s.param.imageSize) :
    fillPixels s room value =
      (List.replicate (min (s.param.imageSize - s.curImageSize) room) value,
        { s with
          curImageSize := s.curImageSize + min (s.param.imageSize - s.curImageSize) room }) :=
  if_pos h

/-- What a call of length `len` returns while no error has been returned. -/
structure Returned (param : ScanParam) (driver : List FillResult) (out : List SaneByte) (len : Nat)
    (r : Int × List SaneByte × PixmaT) : Prop where
  result : r.1 = r.2.1.length
  le : r.2.1.length ≤ len
  last : r.2.1.length < len → out ++ r.2.1 = wholeImage param driver
  inv : PixmaRun.Inv param driver ⟨r.2.2, out ++ r.2.1, false⟩

theorem Returned.of_bytes {len : Nat} {written : List SaneByte} {s' : PixmaT} (hlen : len < 2 ^ 31)
    (hle : written.length ≤ len)
    (hlast : written.length < len → out ++ written = wholeImage param driver)
    (hinv : PixmaRun.Inv param driver ⟨s', out ++ written, false⟩) :
    Returned param driver out len (intOfLength written.length, written, s') :=
  ⟨intOfLength_of_lt (by omega), hle, hlast, hinv⟩

/-- The end of the image, when all blocks have been copied. -/
theorem endOfImage_inv {room : Nat} (hparam : s.param = param)
    (hscanning : s.scanning = true) (hcancel : s.cancel = false)
    (htotal : (blockBytes driver).length ≤ param.imageSize) (hending : endingError driver = none)
    (hcur : s.curImageSize = (blockBytes driver).length) :
    (endOfImage s room).1.length ≤ room ∧
      ((endOfImage s room).1.length < room →
        blockBytes driver ++ (endOfImage s room).1 = wholeImage param driver) ∧
      PixmaRun.Inv param driver
        ⟨(endOfImage s room).2, blockBytes driver ++ (endOfImage s room).1, false⟩ := by
  unfold endOfImage
  by_cases hless : s.curImageSize < s.param.imageSize
  · have hfill := @fillPixels_of_lt { s with finished := s.finished + 1, underrun := true } room
      0xff hless
    rw [if_pos hless, hfill, hparam]
    rw [hparam] at hless
    dsimp only
    rw [List.length_replicate]
    refine ⟨min_le_right _ _, fun hlt => ?_, ?_⟩
    · rw [wholeImage, ← hcur]
      congr 2
      omega
    · refine .padding rfl hscanning hcancel rfl hending rfl ?_ ?_
      · rw [List.length_append, List.length_replicate, hcur]
      · dsimp only
        omega
  · rw [if_neg hless]
    rw [hparam] at hless
    have hwhole : blockBytes driver ++ [] = wholeImage param driver := by
      rw [wholeImage, Nat.sub_eq_zero_of_le (by omega)]
      rfl
    refine ⟨Nat.zero_le _, fun _ => hwhole, ?_⟩
    exact .complete hparam rfl hending hwhole (by dsimp only; omega)

theorem pixmaReadImage_returns {len : Nat} (htotal : (blockBytes driver).length ≤ param.imageSize)
    (h : PixmaRun.Inv param driver ⟨s, out, false⟩) (hlen : len < 2 ^ 31) :
    Returned param driver out len (pixmaReadImage s len) ∨
      (∃ e, endingError driver = some e ∧ (pixmaReadImage s len).1 = e ∧
        PixmaRun.Inv param driver ⟨(pixmaReadImage s len).2.2, out, true⟩) := by
  have hfront := (h.front htotal).1
  cases h with
  | reading hparam hscanning hcancel hunderrun hbytes hending hcur =>
    have hrun : pixmaReadImage s len =
        match (readBlocks s.driver s len).error with
        | some e => (e, (readBlocks s.driver s len).written,
            { (readBlocks s.driver s len).state.abort with imagebuf := s.imagebuf })
        | none => (intOfLength (readBlocks s.driver s len).written.length,
            (readBlocks s.driver s len).written, (readBlocks s.driver s len).state) := by
      simp [pixmaReadImage, hscanning, hcancel, hunderrun]
    rw [hrun]
    rcases readBlocks_cases s.driver s len with
      ⟨written, buf, rest, cur, heq, hfull, hrest, herr, hcount⟩ |
      ⟨rest, herr, hless, heq⟩ | ⟨e, written, buf, rest, cur, herr, heq, hcount⟩
    · left
      rw [heq]
      refine .of_bytes hlen hfull.le (fun hlt => absurd hfull hlt.ne) ?_
      refine .reading hparam hscanning hcancel hunderrun ?_ (herr.trans hending) ?_
      · rw [← hbytes, List.append_assoc, List.append_assoc, List.append_assoc,
          ← List.append_assoc written, hrest]
      · simp only [List.length_append]
        omega
    · left
      rw [List.append_assoc] at hbytes
      have htake : s.curImageSize + (blockBytes s.driver).length = (blockBytes driver).length := by
        rw [← hbytes, List.length_append, List.length_append]
        omega
      obtain ⟨hle, hlast, hinv⟩ := @endOfImage_inv param driver
        { s with
          imagebuf := [], driver := rest
          curImageSize := s.curImageSize + (blockBytes s.driver).length }
        (len - (s.imagebuf ++ blockBytes s.driver).length) hparam hscanning hcancel htotal
        (hending.symm.trans herr) htake
      rw [heq]
      rw [← hbytes, List.append_assoc out] at hlast hinv
      refine .of_bytes hlen ?_ (fun hlt => hlast ?_) hinv
      · rw [List.length_append]
        omega
      · rw [List.length_append] at hlt
        omega
    · right
      refine ⟨e, hending.symm.trans herr, by rw [heq], ?_⟩
      rw [heq]
      have hlength := congrArg List.length hbytes
      simp only [List.length_append] at hlength
      exact .halted hparam (.inl rfl) hfront (by simp only [PixmaT.abort]; omega)
  | @padding _ _ k hparam hscanning hcancel hunderrun hending hout hcur hle =>
    left
    by_cases hless : s.curImageSize < s.param.imageSize
    · have hrun : pixmaReadImage s len = (intOfLength (fillPixels s len 0xff).1.length,
          fillPixels s len 0xff) := by
        simp [pixmaReadImage, hscanning, hcancel, hunderrun, hless]
      rw [hrun, fillPixels_of_lt hless, hparam]
      rw [hparam] at hless
      have hsum : out ++ List.replicate (min (param.imageSize - s.curImageSize) len) 0xff =
          blockBytes driver ++
            List.replicate (k + min (param.imageSize - s.curImageSize) len) 0xff := by
        rw [hout, List.append_assoc, List.replicate_append_replicate]
      have hlength := congrArg List.length hout
      rw [List.length_append, List.length_replicate] at hlength
      refine .of_bytes hlen ?_ (fun hlt => ?_) ?_
      · rw [List.length_replicate]
        exact min_le_right _ _
      · rw [List.length_replicate] at hlt
        rw [hsum, wholeImage]
        congr 2
        omega
      · refine .padding rfl hscanning hcancel hunderrun hending hsum ?_ ?_
        · rw [List.length_append, List.length_replicate, hcur]
        · dsimp only
          omega
    · have hrun : pixmaReadImage s len = (0, [], { s with scanning := false }) := by
        simp [pixmaReadImage, hscanning, hcancel, hunderrun, hless]
      rw [hparam] at hless
      have hwhole : out ++ [] = wholeImage param driver := by
        rw [List.append_nil]
        refine hfront.eq_of_length_le ?_
        rw [length_wholeImage htotal, ← hcur]
        omega
      rw [hrun]
      exact ⟨rfl, Nat.zero_le _, fun _ => hwhole, .complete hparam rfl hending hwhole hle⟩
  | complete hparam hscanning hending hout hle =>
    left
    have hrun : pixmaReadImage s len = (0, [], s) := by
      simp [pixmaReadImage, hscanning]
    have hwhole : out ++ [] = wholeImage param driver := by rw [List.append_nil, hout]
    rw [hrun]
    exact ⟨rfl, Nat.zero_le _, fun _ => hwhole, .complete hparam hscanning hending hwhole hle⟩

/-- After an error or a cancel nothing is written. -/
theorem pixmaReadImage_halted {len : Nat} (h : PixmaRun.Inv param driver ⟨s, out, true⟩) :
    (pixmaReadImage s len).1 ≤ 0 ∧ (pixmaReadImage s len).2.1 = [] ∧
      PixmaRun.Inv param driver ⟨(pixmaReadImage s len).2.2, out, true⟩ := by
  cases h with
  | halted hparam hstops hout hle =>
    cases hscanning : s.scanning with
    | false =>
      have hrun : pixmaReadImage s len = (0, [], s) := by
        simp [pixmaReadImage, hscanning]
      rw [hrun]
      exact ⟨le_rfl, rfl, .halted hparam (.inl hscanning) hout hle⟩
    | true =>
      have hcancel : s.cancel = true := hstops.resolve_left (by simp [hscanning])
      have hrun : pixmaReadImage s len = (PIXMA_ECANCELED.val, [], s.abort) := by
        simp [pixmaReadImage, hscanning, hcancel]
      rw [hrun]
      exact ⟨PIXMA_ECANCELED.2.le, rfl, .halted hparam (.inl rfl) hout hle⟩

theorem PixmaRun.Inv.step {t : PixmaRun} {op : PixmaOp} (h : t.Inv param driver)
    (htotal : (blockBytes driver).length ≤ param.imageSize)
    (hop : ∀ len, op = .read len → len < 2 ^ 31) : (t.step op).Inv param driver := by
  obtain ⟨s, out, halted⟩ := t
  cases op with
  | cancel =>
    obtain ⟨hout, hle⟩ := h.front htotal
    refine .halted ?_ (.inr rfl) hout hle
    cases h with
    | reading hparam => exact hparam
    | padding hparam => exact hparam
    | complete hparam => exact hparam
    | halted hparam => exact hparam
  | read len =>
    have hlen := hop len rfl
    dsimp only [PixmaRun.step]
    cases halted with
    | true =>
      obtain ⟨hle, hnone, hinv⟩ := @pixmaReadImage_halted _ _ _ _ len h
      rw [hnone, List.append_nil]
      split_ifs <;> exact hinv
    | false =>
      rcases pixmaReadImage_returns htotal h hlen with hreturned | ⟨e, -, he, hinv⟩
      · have hpos : ¬ (pixmaReadImage s len).1 < 0 := by
          rw [hreturned.result]
          omega
        rw [if_neg hpos]
        exact hreturned.inv
      · have hneg : (pixmaReadImage s len).1 < 0 := by
          rw [he]
          exact e.2
        rw [if_pos hneg]
        exact hinv

theorem PixmaRun.all_inv {ops : List PixmaOp}
    (htotal : (blockBytes driver).length ≤ param.imageSize)
    (hops : ∀ len, .read len ∈ ops → len < 2 ^ 31) :
    (PixmaRun.all param driver ops).Inv param driver := by
  induction ops using List.reverseRecOn with
  | nil => exact .reading rfl rfl rfl rfl rfl rfl rfl
  | append_singleton ops op ih =>
    rw [PixmaRun.all, List.foldl_append]
    refine (ih fun len hlen => hops len (List.mem_append_left _ hlen)).step htotal ?_
    rintro len rfl
    exact hops len (List.mem_append_right _ List.mem_cons_self)

end Image

/-- What the calls return is the image from its beginning on, and a call that returns less
    than its length returns the last of it.  After the image nothing more is returned, and
    nothing after an error or a cancel. -/
theorem read_image_once (param : ScanParam) (driver : List FillResult)
    (htotal : (blockBytes driver).length ≤ param.imageSize) (ops : List PixmaOp)
    (hops : ∀ len, .read len ∈ ops → len < 2 ^ 31) :
    let t := PixmaRun.all param driver ops
    t.out <+: wholeImage param driver ∧ (wholeImage param driver).length = param.imageSize ∧
      t.state.curImageSize ≤ param.imageSize ∧
      ∀ len, len < 2 ^ 31 →
        let r := pixmaReadImage t.state len
        (t.halted = true → r.1 ≤ 0 ∧ r.2.1 = []) ∧
        (t.halted = false →
          (r.1 = r.2.1.length ∧ r.2.1.length ≤ len ∧
            (r.2.1.length < len → t.out ++ r.2.1 = wholeImage param driver) ∧
            (t.out = wholeImage param driver → r.1 = 0)) ∨
          ∃ e, endingError driver = some e ∧ r.1 = e) := by
  have hinv := PixmaRun.all_inv htotal hops
  obtain ⟨hfront, hle⟩ := hinv.front htotal
  dsimp only
  generalize PixmaRun.all param driver ops = t at hinv hfront hle ⊢
  obtain ⟨s, out, halted⟩ := t
  refine ⟨hfront, length_wholeImage htotal, hle, fun len hlen => ⟨fun hhalted => ?_,
    fun hhalted => ?_⟩⟩
  · cases hhalted
    obtain ⟨hneg, hnone, -⟩ := @pixmaReadImage_halted _ _ _ _ len hinv
    exact ⟨hneg, hnone⟩
  · cases hhalted
    rcases pixmaReadImage_returns htotal hinv hlen with hreturned | ⟨e, he, hresult, -⟩
    · left
      refine ⟨hreturned.result, hreturned.le, hreturned.last, fun hwhole => ?_⟩
      have hnext := (hreturned.inv.front htotal).1.length_le
      rw [List.length_append, ← hwhole] at hnext
      rw [hreturned.result]
      dsimp only at hnext ⊢
      omega
    · exact .inr ⟨e, he, hresult⟩

/-- An image of ten bytes that ends after four of them, in three pieces. -/
theorem read_image_once_short :
    (PixmaRun.all ⟨10, by decide⟩ [.block [1, 2, 3], .block [4]] [.read 2, .read 5, .read 9]).out =
        [1, 2, 3, 4, 0xff, 0xff, 0xff, 0xff, 0xff, 0xff] ∧
      (pixmaReadImage (PixmaRun.all ⟨10, by decide⟩ [.block [1, 2, 3], .block [4]]
        [.read 2, .read 5, .read 9]).state 4).1 = 0 := by
  have hout : (PixmaRun.all ⟨10, by decide⟩ [.block [1, 2, 3], .block [4]]
      [.read 2, .read 5, .read 9]).out = [1, 2, 3, 4, 0xff, 0xff, 0xff, 0xff, 0xff, 0xff] := by
    decide
  obtain ⟨-, -, -, hnext⟩ := read_image_once ⟨10, by decide⟩ [.block [1, 2, 3], .block [4]]
    (by decide) [.read 2, .read 5, .read 9] (by simp)
  refine ⟨hout, ?_⟩
  rcases (hnext 4 (by decide)).2 (by decide) with ⟨-, -, -, hlast⟩ | ⟨e, he, -⟩
  · exact hlast (hout.trans (by decide))
  · cases he

end SaneBackends
