import FrameEngine.Texture.Data

namespace FrameEngine.Cubemap

open FrameEngine.Texture

def mostMips : Nat := 5

def mipCount (size : Nat) : Nat := min (fullMipCount size size) mostMips

/-- The greatest `n` up to the bound with `n / 255` at most `(v / 255) ^ 2.2`, in whole numbers. -/
def linearUpTo (v : Nat) : Nat → Nat
  | 0 => 0
  | n + 1 => if (n + 1) ^ 5 * 255 ^ 6 ≤ v ^ 11 then n + 1 else linearUpTo v n

def linearTable : Vector UInt8 256 := Vector.ofFn fun v => UInt8.ofNat (linearUpTo v v)

def linear (v : UInt8) : UInt8 := linearTable.get ⟨v.toNat, v.toNat_lt⟩

def linearize (pixels : Array UInt8) : Array UInt8 :=
  pixels.mapIdx fun i v => if i % 4 = 3 then v else linear v

def half (size : Nat) : Nat := max (size / 2) 1

def channelAt (pixels : Array UInt8) (size x y c : Nat) : Nat :=
  (pixels.getD ((y * size + x) * 4 + c) 0).toNat

/-- The mean of the two by two source pixels behind a pixel, halves rounded up. Sources stay inside
the image. -/
def boxed (pixels : Array UInt8) (size x y c : Nat) : UInt8 :=
  let x₀ := min (2 * x) (size - 1)
  let x₁ := min (2 * x + 1) (size - 1)
  let y₀ := min (2 * y) (size - 1)
  let y₁ := min (2 * y + 1) (size - 1)
  let sum := channelAt pixels size x₀ y₀ c + channelAt pixels size x₁ y₀ c +
    channelAt pixels size x₀ y₁ c + channelAt pixels size x₁ y₁ c
  UInt8.ofNat ((sum + 2) / 4)

def downsample (pixels : Array UInt8) (size : Nat) : Array UInt8 :=
  Array.ofFn (n := half size * half size * 4) fun i =>
    boxed pixels size (i / 4 % half size) (i / 4 / half size) (i % 4)

def chain (pixels : Array UInt8) (size : Nat) : Nat → List (Array UInt8)
  | 0 => [pixels]
  | more + 1 => pixels :: chain (downsample pixels size) (half size) more

/-- All levels of a face, the largest first; a face in sRGB is made linear before. -/
def faceLevels (face : TextureData) (mips : Nat) : List (Array UInt8) :=
  let pixels := if face.format = .rgba8Srgb then linearize face.pixels else face.pixels
  chain pixels face.width (mips - 1)

end FrameEngine.Cubemap
