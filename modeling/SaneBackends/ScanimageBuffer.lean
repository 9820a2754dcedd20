import SaneBackends.SaneTypes
import SaneBackends.BytePairs

/-!
# The image buffer of `scanimage`

`advance` and the buffered half of `scan_it` in `frontend/scanimage.c`.  A scan of
unknown height, or one of three frames, is kept in memory until its size is known.  A
cursor runs over the pixels and lets the block grow by strips; the bytes are stored by an
index of their own.  Allocations succeed, and fresh memory holds zeros.
-/

namespace SaneBackends.Scanimage

open BytePairs

def STRIP_HEIGHT : Int := 256

/-- Why a scan may go wrong: a store or a read outside of the block, an `int` that
    overflows, a failed assertion. -/
inductive ImageFault where
  | outOfBounds
  | overflow
  | aborted
deriving DecidableEq, Repr

def mulInt (a b : Int) : Except ImageFault Int :=
  if -2 ^ 31 ≤ a * b ∧ a * b < 2 ^ 31 then .ok (a * b) else .error .overflow

/-! ### The image -/

structure Image where
  data : Option (List SaneByte)
  width : Int
  height : Int
  x : Int
  y : Int
deriving DecidableEq, Repr

/-- One more strip of lines is allocated. -/
def Image.grow (image : Image) : Except ImageFault Image := do
  let oldSize ← match image.data with
    | some _ => mulInt image.height image.width
    | none => .ok 0
  let height := image.height + STRIP_HEIGHT
  let newSize ← mulInt height image.width
  let fresh := List.replicate (newSize - oldSize).toNat (0 : SaneByte)
  return { image with height := height, data := some (image.data.getD [] ++ fresh) }

def advance (image : Image) : Except ImageFault Image :=
  if image.x + 1 ≥ image.width then
    let image := { image with x := 0, y := image.y + 1 }
    if image.y ≥ image.height ∨ image.data = none then image.grow else .ok image
  else .ok { image with x := image.x + 1 }

def Image.store (image : Image) (i : Nat) (b : SaneByte) : Except ImageFault Image :=
  match image.data with
  | none => .error .outOfBounds
  | some data =>
      if i < data.length then .ok { image with data := some (data.set i b) }
      else .error .outOfBounds

/-! ### Reading a frame -/

inductive SaneFrame where
  | gray | rgb | red | green | blue
deriving DecidableEq, Repr

/-- `SANE_Parameters` -/
structure Parameters where
  format : SaneFrame
  lastFrame : Bool
  bytesPerLine : Int
  pixelsPerLine : Int
  lines : Int
  depth : Int
deriving DecidableEq, Repr

/-- `parm.format - SANE_FRAME_RED` for the frames of a three-pass scan. -/
def SaneFrame.colour : SaneFrame → Option Nat
  | .red => some 0
  | .green => some 1
  | .blue => some 2
  | _ => none

/-- The distance between two bytes of a frame in the image. -/
def SaneFrame.stride (format : SaneFrame) : Nat := if format.colour = none then 1 else 3

def SaneFrame.offset (format : SaneFrame) : Nat := format.colour.getD 0

/-- The loop over the bytes of one `sane_read`. -/
def storeBytes (stride : Nat) : Nat → List SaneByte → Image → Except ImageFault Image
  | _, [], image => .ok image
  | i, b :: bs, image => do
      let image ← image.store i b
      let image ← advance image
      storeBytes stride (i + stride) bs image

def readFrame (stride : Nat) : Nat → List (List SaneByte) → Image → Except ImageFault Image
  | _, [], image => .ok image
  | offset, buffer :: reads, image => do
      let image ← storeBytes stride offset buffer image
      readFrame stride (offset + stride * buffer.length) reads image

/-- What the backend answers for one frame: `sane_start` (not asked before the first),
    `sane_get_parameters`, the buffers of `sane_read`, and the status that ends them. -/
structure FrameScan where
  start : SaneStatus
  parm : Except SaneStatus Parameters
  reads : List (List SaneByte)
  final : SaneStatus
deriving DecidableEq, Repr

/-- The buffer before the first frame: one line more than the frame has, or one strip. -/
def startImage (parm : Parameters) : Except ImageFault Image :=
  advance
    { data := none
      width := parm.bytesPerLine
      height := if parm.lines ≥ 0 then parm.lines - STRIP_HEIGHT + 1 else 0
      x := parm.bytesPerLine - 1
      y := -1 }

def Parameters.depthOk (parm : Parameters) : Bool :=
  match parm.format with
  | .rgb => parm.depth = 8 ∨ parm.depth = 16
  | .gray => parm.depth = 1 ∨ parm.depth = 8 ∨ parm.depth = 16
  | _ => parm.depth = 8

def frameImage (first : Bool) (parm : Parameters) (image : Image) : Except ImageFault Image :=
  if first then if parm.depthOk then startImage parm else .error .aborted
  else if parm.format.colour = none then .error .aborted
  else .ok { image with x := 0, y := 0 }

/-! ### Writing the image -/

/-- The header, and the bytes behind it. -/
structure Written where
  tiff : Bool
  format : SaneFrame
  width : Int
  height : Int
  depth : Int
  data : List SaneByte
deriving DecidableEq, Repr

/-- The end of `scan_it`, on a little-endian machine. -/
def writeImage (tiff : Bool) (parm : Parameters) (image : Image) : Except ImageFault Written := do
  let size ← mulInt image.y image.width
  let data := image.data.getD []
  let data := if !tiff ∧ parm.depth = 16 then
      (List.range' 0 ((size.toNat + 1) / 2) 2).foldl swapAt data
    else data
  if size.toNat ≤ data.length then
    return ⟨tiff, parm.format, parm.pixelsPerLine, image.y, parm.depth, data.take size.toNat⟩
  else .error .outOfBounds

/-- `scan_it` when the image must be buffered: the status, and what has been written.
    `none` stands for a scan that asks for one more frame. -/
def scanIt (tiff : Bool) : Bool → List FrameScan → Image →
    Except ImageFault (Option (SaneStatus × Option Written))
  | _, [], _ => .ok none
  | first, f :: fs, image =>
      if !first ∧ f.start ≠ .good then .ok (some (f.start, none))
      else
        match f.parm with
        | .error status => .ok (some (status, none))
        | .ok parm => do
            let image ← frameImage first parm image
            let image ← readFrame parm.format.stride parm.format.offset f.reads image
            if f.final ≠ .eof then return some (f.final, none)
            else if parm.lastFrame then
              let written ← writeImage tiff parm image
              return some (.eof, some written)
            else scanIt tiff false fs image

def Image.zero : Image := ⟨none, 0, 0, 0, 0⟩

/-- `scan_it` on the answers of a backend. -/
def scanBuffered (tiff : Bool) (frames : List FrameScan) :
    Except ImageFault (Option (SaneStatus × Option Written)) :=
  scanIt tiff true frames .zero

end SaneBackends.Scanimage
