import FrameEngine.Texture.Data

namespace FrameEngine.Image

open FrameEngine.Texture

structure Header where
  width : Nat
  height : Nat
  /-- Samples per pixel: grey, grey and alpha, color, color and alpha. -/
  depth : Nat
  /-- Whether a sample takes two bytes, the high one first. -/
  wide : Bool

def Header.rowBytes (h : Header) : Nat := h.width * h.depth * (if h.wide then 2 else 1)

/-- Rows that hold something: there are none if a row is empty, however high the image is. -/
def Header.rowCount (h : Header) : Nat := if h.rowBytes = 0 then 0 else h.height

def Header.byteCount (h : Header) : Nat := h.height * h.rowBytes

/-- A sample in one byte; two bytes are scaled to the nearest. -/
def sample (h : Header) (samples : Array UInt8) (k : Nat) : UInt8 :=
  if h.wide then
    let v := 256 * (samples.getD (2 * k) 0).toNat + (samples.getD (2 * k + 1) 0).toNat
    UInt8.ofNat ((v + 128) / 257)
  else samples.getD k 0

/-- Channel `c` of a pixel: grey counts for all three colors, and what has no alpha is solid. -/
def channel (h : Header) (samples : Array UInt8) (pixel c : Nat) : UInt8 :=
  match h.depth with
  | 1 => if c < 3 then sample h samples pixel else 255
  | 2 => sample h samples (2 * pixel + (if c < 3 then 0 else 1))
  | 3 => if c < 3 then sample h samples (3 * pixel + c) else 255
  | _ => sample h samples (4 * pixel + c)

def Header.pixmap (h : Header) (samples : Array UInt8) : Pixmap where
  width := h.width
  height := h.height
  pixels := Array.ofFn (n := 4 * (h.width * h.height)) fun i =>
    channel h samples (i.val / 4) (i.val % 4)
  size_pixels := Array.size_ofFn

end FrameEngine.Image
