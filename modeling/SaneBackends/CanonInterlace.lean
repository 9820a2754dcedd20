import SaneBackends.DuplexSides
import SaneBackends.Gather
import SaneBackends.SaneTypes

/-!
# The layouts of the `canon_dr` scanners

`copy_duplex` splits a block of double-width lines into two sides, and `copy_simplex` puts the
samples of a line in their order.  A loop over samples is the list of the places it reads.
-/

namespace SaneBackends.CanonInterlace

open DuplexSides Gather

inductive GrayInterlace
  | none | i2510 | gG
  deriving DecidableEq

inductive ColorInterlace
  | rgb | bgr | rrggbb | rRgGbB | i2510
  deriving DecidableEq

inductive DuplexInterlace
  | none | ffbb | fbfb | i2510
  deriving DecidableEq

/-- What the scan has of the parameters: `s->s.Bpl`, `s->s.width`, the modulus `s->ppl_mod` to
    which `update_params` rounds the width, whether `s->s.format` is `SANE_FRAME_RGB` (else it is
    `SANE_FRAME_GRAY`), and the lines of `s->i` that are kept. -/
structure Scan where
  bpl : Nat
  width : Nat
  pplMod : Nat
  rgb : Bool
  grayInterlace : Sides GrayInterlace
  colorInterlace : Sides ColorInterlace
  duplexInterlace : DuplexInterlace
  skipLines : Sides Nat
  height : Nat
  bpl_pos : 0 < bpl
  bpl_rgb : rgb = true → bpl = 3 * width
  width_mod : pplMod ∣ width

namespace Scan

variable (s : Scan)

/-- The pixels of a colour line in the order in which they are stored. -/
def pixels (side : Side) : List Nat :=
  match s.colorInterlace.get side with
  | .rgb | .bgr | .rrggbb => List.range s.width
  | .rRgGbB => countdown (s.width - 1) 1
  | .i2510 =>
    countdown ((s.bpl / 3 : Nat) - 1) 3 ++ countdown ((s.bpl / 4 : Nat) - 3) 3 ++
      countdown ((s.bpl / 3 : Nat) - 2) 3

/-- Where red, green and blue of a pixel are. -/
def samplesOf (side : Side) (j : Nat) : List Nat :=
  match s.colorInterlace.get side with
  | .rgb => [j * 3, j * 3 + 1, j * 3 + 2]
  | .bgr => [j * 3 + 2, j * 3 + 1, j * 3]
  | .rrggbb | .rRgGbB => [j, s.width + j, 2 * s.width + j]
  | .i2510 => [j, s.bpl / 3 + j, 2 * (s.bpl / 3) + j]

/-- The places that the `switch` reads of a line, none if the line is copied as it is. -/
def order (side : Side) : List Nat :=
  if s.rgb = false then
    match s.grayInterlace.get side with
    | .none => []
    | .gG => countdown (s.bpl - 1) 1
    | .i2510 =>
      countdown (s.bpl - 1) 3 ++ countdown ((s.bpl * 3 / 4 : Nat) - 3) 3 ++
        countdown (s.bpl - 2) 3
  else if s.colorInterlace.get side = .rgb then []
  else (s.pixels side).flatMap (s.samplesOf side)

def padding (side : Side) : Nat :=
  if s.rgb = false then if s.grayInterlace.get side = .i2510 then s.bpl / 12 else 0
  else if s.colorInterlace.get side = .i2510 then s.bpl / 12 else 0

/-- One line of the block, from `buf[i]` on, in its order. -/
def descramble (side : Side) (buf : List SaneByte) (i : Nat) : Except Fault (List SaneByte) := do
  let line ← gather buf s.bpl [] ((s.order side).map (i + ·))
  let line ← (List.replicate (s.padding side) 0).foldlM (push s.bpl) line
  if line = [] then loadCells buf i s.bpl else return line

/-- One turn of the loop of `copy_simplex`: the lines that go on to the calibration and to
    `copy_line`, and `s->s.bytes_sent`. -/
def copySimplexLine (side : Side) (buf : List SaneByte) (st : List (List SaneByte) × Nat)
    (k : Nat) : Except Fault (List (List SaneByte) × Nat) :=
  let lineNum : Int := st.2 / s.bpl
  if lineNum < s.skipLines.get side ∨ lineNum - s.skipLines.get side ≥ s.height then
    .ok (st.1, st.2 + s.bpl)
  else do return (st.1 ++ [← s.descramble side buf (k * s.bpl)], st.2 + s.bpl)

/-- `copy_simplex`, `i` being `k * bwidth`. -/
def copySimplex (side : Side) (bytesSent : Nat) (buf : List SaneByte) :
    Except Fault (List (List SaneByte) × Nat) :=
  (List.range ((buf.length + s.bpl - 1) / s.bpl)).foldlM (s.copySimplexLine side buf)
    ([], bytesSent)

/-- The places of the front and of the back that one turn of the loops of `copy_duplex` reads. -/
def groups (len : Nat) : List (List Nat × List Nat) :=
  let dbwidth := 2 * s.bpl
  match s.duplexInterlace with
  | .i2510 =>
    (List.range ((len + dbwidth - 1) / dbwidth)).flatMap fun k =>
      (List.range ((dbwidth + 5) / 6)).map fun n =>
        let j := k * dbwidth + n * 6
        ([j + 2, j + 4, j + 5], [j + 3, j, j + 1])
  | .ffbb =>
    (List.range ((len + dbwidth - 1) / dbwidth)).map fun k =>
      ((List.range s.bpl).map (k * dbwidth + ·),
        (List.range s.bpl).map (k * dbwidth + s.bpl + ·))
  | .none | .fbfb => (List.range ((len + 1) / 2)).map fun k => ([k * 2], [k * 2 + 1])

def split (buf : List SaneByte) : Except Fault (List SaneByte × List SaneByte) :=
  gatherPairs buf (buf.length / 2) ([], []) (s.groups buf.length)

/-- `copy_duplex`: the lines of both sides and `s->s.bytes_sent`. -/
def copyDuplex (bytesSent : Sides Nat) (buf : List SaneByte) :
    Except Fault (Sides (List (List SaneByte) × Nat)) := do
  let (front, back) ← s.split buf
  let front ← s.copySimplex .front bytesSent.front front
  let back ← s.copySimplex .back bytesSent.back back
  return ⟨front, back⟩

end Scan

end SaneBackends.CanonInterlace
