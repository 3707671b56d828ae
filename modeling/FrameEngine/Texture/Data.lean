import FrameEngine.Texture.Format

namespace FrameEngine.Texture

structure Pixmap where
  width : Nat
  height : Nat
  pixels : Array UInt8
  size_pixels : pixels.size = 4 * (width * height)

structure TextureData extends Pixmap where
  format : Format

def Pixmap.texture (image : Pixmap) (srgb : Bool) : TextureData := { image with format := .rgba8 srgb }

/-- The number of mips of a full chain, down to one pixel: the bit length of the larger side. -/
def fullMipCount (width height : Nat) : Nat :=
  let largest := max width height
  if largest = 0 then 1 else Nat.log2 largest + 1

namespace TextureData

def mipLevels (data : TextureData) : Nat := fullMipCount data.width data.height

def solidColor (width height : Nat) (red green blue alpha : UInt8) : TextureData where
  width := width
  height := height
  format := .rgba8Srgb
  pixels := Array.ofFn (n := 4 * (width * height)) fun i =>
    match i.val % 4 with
    | 0 => red
    | 1 => green
    | 2 => blue
    | _ => alpha
  size_pixels := Array.size_ofFn

end TextureData

end FrameEngine.Texture
