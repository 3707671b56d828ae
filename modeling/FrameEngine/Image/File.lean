import FrameEngine.Image.Checksum
import FrameEngine.Image.Samples

namespace FrameEngine.Image

open FrameEngine.Texture

def signature : List UInt8 := [0x89, 0x50, 0x4E, 0x47, 0x0D, 0x0A, 0x1A, 0x0A]

def word (n : UInt32) : List UInt8 :=
  [(n >>> 24).toUInt8, (n >>> 16).toUInt8, (n >>> 8).toUInt8, n.toUInt8]

def word? : List UInt8 → Option (UInt32 × List UInt8)
  | a :: b :: c :: d :: rest =>
      some ((a.toUInt32 <<< 24) ||| (b.toUInt32 <<< 16) ||| (c.toUInt32 <<< 8) ||| d.toUInt32, rest)
  | _ => none

def split? (n : Nat) (bytes : List UInt8) : Option (List UInt8 × List UInt8) :=
  let first := bytes.take n
  if first.length = n then some (first, bytes.drop n) else none

structure Chunk where
  name : List UInt8
  data : List UInt8

namespace Chunk

def headerName : List UInt8 := "IHDR".toUTF8.toList

def dataName : List UInt8 := "IDAT".toUTF8.toList

def endName : List UInt8 := "IEND".toUTF8.toList

def bytes (chunk : Chunk) : List UInt8 :=
  let body := chunk.name ++ chunk.data
  word chunk.data.length.toUInt32 ++ body ++ word (Checksum.crc32 body)

def readAll? : Nat → List UInt8 → Option (List Chunk)
  | 0, _ => none
  | fuel + 1, bytes => do
      let (size, rest) ← word? bytes
      let (body, rest) ← split? (4 + size.toNat) rest
      let (crc, rest) ← word? rest
      guard (crc = Checksum.crc32 body)
      let chunk : Chunk := ⟨body.take 4, body.drop 4⟩
      if chunk.name = endName then return []
      return chunk :: (← readAll? fuel rest)

end Chunk

def colorType : Nat → UInt8
  | 1 => 0
  | 2 => 4
  | 3 => 2
  | _ => 6

def depth? : UInt8 → Option Nat
  | 0 => some 1
  | 4 => some 2
  | 2 => some 3
  | 6 => some 4
  | _ => none

def Header.bytes (h : Header) : List UInt8 :=
  word h.width.toUInt32 ++ word h.height.toUInt32 ++
    [if h.wide then 16 else 8, colorType h.depth, 0, 0, 0]

def header? (bytes : List UInt8) : Option Header := do
  let (width, rest) ← word? bytes
  let (height, rest) ← word? rest
  match rest with
  | [bits, color, 0, 0, 0] =>
      guard (bits = 8 ∨ bits = 16)
      return ⟨width.toNat, height.toNat, ← depth? color, bits = 16⟩
  | _ => none

def rows (size : Nat) : Nat → List UInt8 → List UInt8
  | 0, _ => []
  | count + 1, samples => 0 :: samples.take size ++ rows size count (samples.drop size)

def rows? (size : Nat) : Nat → List UInt8 → Option (List UInt8)
  | 0, [] => some []
  | count + 1, 0 :: bytes => do
      let (row, rest) ← split? size bytes
      return row ++ (← rows? size count rest)
  | _, _ => none

def blockLimit : Nat := 65535

def half (n : Nat) : List UInt8 := [UInt8.ofNat n, UInt8.ofNat (n / 256)]

/-- A stored block gives its length twice, the second time as what is missing to the limit. -/
def block (isLast : Bool) (data : List UInt8) : List UInt8 :=
  (if isLast then 1 else 0) :: half data.length ++ half (blockLimit - data.length) ++ data

def blocks (data : List UInt8) : List UInt8 :=
  if _h : data.drop blockLimit = [] then block true data
  else block false (data.take blockLimit) ++ blocks (data.drop blockLimit)
termination_by data.length
decreasing_by
  have hlength := List.length_pos_iff.mpr _h
  simp only [List.length_drop, blockLimit] at hlength ⊢
  omega

def blocks? : Nat → List UInt8 → Option (List UInt8 × List UInt8)
  | fuel + 1, kind :: a :: b :: c :: d :: rest => do
      let size := a.toNat + 256 * b.toNat
      guard (kind ≤ 1 ∧ size + (c.toNat + 256 * d.toNat) = blockLimit)
      let (data, rest) ← split? size rest
      if kind = 1 then return (data, rest)
      let (more, rest) ← blocks? fuel rest
      return (data ++ more, rest)
  | _, _ => none

def stream (data : List UInt8) : List UInt8 :=
  0x78 :: 0x01 :: blocks data ++ word (Checksum.adler32 data)

def stream? : List UInt8 → Option (List UInt8)
  | 0x78 :: 0x01 :: bytes => do
      let (data, rest) ← blocks? bytes.length bytes
      let (sum, _) ← word? rest
      guard (sum = Checksum.adler32 data)
      return data
  | _ => none

def encode (h : Header) (samples : List UInt8) : ByteArray :=
  let chunks : List Chunk := [⟨Chunk.headerName, h.bytes⟩,
    ⟨Chunk.dataName, stream (rows h.rowBytes h.rowCount samples)⟩, ⟨Chunk.endName, []⟩]
  ⟨(signature ++ chunks.flatMap Chunk.bytes).toArray⟩

/-- The header of an image file and its samples. The file is a PNG whose rows are not filtered, and whose blocks are not
compressed. Every checksum has to be right; what follows the closing chunk is of no account. -/
def read? (bytes : List UInt8) : Option (Header × List UInt8) := do
  let (first, rest) ← split? signature.length bytes
  guard (first = signature)
  match ← Chunk.readAll? rest.length rest with
  | [] => none
  | first :: chunks =>
      guard (first.name = Chunk.headerName)
      let h ← header? first.data
      let data := (chunks.filter (·.name = Chunk.dataName)).flatMap (·.data)
      return (h, ← rows? h.rowBytes h.rowCount (← stream? data))

/-- Decodes an image file into four bytes per pixel; anything else is refused. -/
def pixmap? (bytes : ByteArray) : Option Pixmap :=
  (read? bytes.toList).map fun (h, samples) => h.pixmap samples.toArray

def decode? (bytes : ByteArray) (srgb : Bool) : Option TextureData := (pixmap? bytes).map (·.texture srgb)

def unknownFormat : String := "The image format could not be determined"

end FrameEngine.Image
