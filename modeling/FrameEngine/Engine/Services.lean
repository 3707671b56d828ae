import FrameEngine.Asset.Database
import FrameEngine.Image.File
import FrameEngine.Jobs.Pool
import FrameEngine.Slots.Loading
import FrameEngine.Texture.Uploader

namespace FrameEngine

open FrameEngine.Asset FrameEngine.Jobs FrameEngine.Slots FrameEngine.Texture

structure Services where
  assets : Database
  jobs : Pool
  uploader : Uploader := {}
  decoder : ByteArray → Option Pixmap := Image.pixmap?
  /-- Textures that are not in sRGB. -/
  linear : List AssetId := []
  journal : Journal := #[]

namespace Services

def note (event : Event) (s : Services) : Services := { s with journal := s.journal.push event }

def isSrgb (s : Services) (id : AssetId) : Bool := id ∉ s.linear

/-- From its next load on, a texture is not in sRGB. -/
def markLinear (s : Services) (id : AssetId) : Services := { s with linear := id :: s.linear }

def register (s : Services) (path : String) : AssetId × Services :=
  let (id, assets) := s.assets.register path
  (id, { s with assets := assets })

def decode? (s : Services) (bytes : ByteArray) (srgb : Bool) : Option TextureData :=
  (s.decoder bytes).map (·.texture srgb)

def destroy (_ : GpuTexture) (s : Services) : Services := { s with uploader := s.uploader.destroy }

def loadTexture (id : AssetId) (s : Services) : Except LoadError GpuTexture × Services :=
  match s.assets.read id with
  | .error cause => (.error (.ofAsset cause), s)
  | .ok bytes => match s.decode? bytes (s.isSrgb id) with
      | none => (.error (.unavailable ("decode failed: " ++ Image.unknownFormat)), s)
      | some data => match s.uploader.uploadTexture (s.assets.describe id) data with
          | .error cause => (.error (.fatal cause), s)
          | .ok (texture, uploader) => (.ok texture, { s with uploader := uploader })

end Services

def missingTexture : String := "Textures/missing.png"

abbrev textureSlots : Nat := 256

abbrev TextureTable := Table AssetId GpuTexture textureSlots

def textureLoader : Loader Services AssetId GpuTexture textureSlots where
  kind := "texture"
  placeholder := .ofPath missingTexture
  describe := fun s id => s.assets.describe id
  load := fun id w =>
    let (result, s) := w.2.loadTexture id
    (result, w.1, s)
  release := Services.destroy
  note := Services.note

end FrameEngine
