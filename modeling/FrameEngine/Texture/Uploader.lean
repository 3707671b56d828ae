import FrameEngine.Cubemap.Data

namespace FrameEngine.Texture

open FrameEngine.Slots

structure GpuTexture where
  image : Nat
  view : Nat
  format : Format
  width : Nat
  height : Nat
  mips : Nat
  layers : Nat
  deriving DecidableEq

/-- No device is touched: what would have been uploaded is counted. -/
structure Uploader where
  created : Nat := 0
  destroyed : Nat := 0
  bytes : Nat := 0
  /-- Names whose upload fails. -/
  refused : List String := []

namespace Uploader

def live (u : Uploader) : Nat := u.created - u.destroyed

/-- Makes an image; it and its view take the next two handles, of which none is zero. -/
def create (u : Uploader) (format : Format) (width height mips layers bytes : Nat) :
    GpuTexture × Uploader :=
  (⟨2 * u.created + 1, 2 * u.created + 2, format, width, height, mips, layers⟩,
    { u with created := u.created + 1, bytes := u.bytes + bytes })

def refusal (table name : String) : SlotError := .upload table ("refused " ++ name)

def uploadTexture (u : Uploader) (name : String) (data : TextureData) :
    Except SlotError (GpuTexture × Uploader) :=
  if name ∈ u.refused then .error (refusal "texture" name)
  else .ok (u.create data.format data.width data.height data.mipLevels 1 data.pixels.size)

def uploadCubemap (u : Uploader) (name : String) (data : Cubemap.CubemapData) :
    Except SlotError (GpuTexture × Uploader) :=
  if name ∈ u.refused then .error (refusal "cubemap" name)
  else .ok (u.create data.format data.size data.size data.levels.length Cubemap.faceCount data.byteCount)

def destroy (u : Uploader) : Uploader := { u with destroyed := u.destroyed + 1 }

end Uploader

end FrameEngine.Texture
