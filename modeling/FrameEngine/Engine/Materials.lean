import FrameEngine.Engine.Services
import FrameEngine.Json.Reader
import FrameEngine.Material.Document

namespace FrameEngine

open FrameEngine.Asset FrameEngine.Material FrameEngine.Slots FrameEngine.Texture

def missingMaterial : String := "Materials/missing.json"

abbrev materialSlots : Nat := 256

abbrev MaterialTable := Table AssetId Material materialSlots

/-- Works on the texture table; what is done before an error stays done. -/
abbrev Mapping := ExceptT SlotError (StateM (TextureTable × Services))

def mapSlot (path : Option String) (isLinear : Bool) : Mapping UInt32 :=
  match path with
  | none => return noTexture
  | some path => do
      let (textures, s) ← get
      let (id, s) := s.register path
      let s := if isLinear then s.markLinear id else s
      let (result, w) := textureLoader.loadOrGet id (textures, s)
      set w
      match result with
      | .ok slot => return UInt32.ofNat slot
      | .error cause => throw cause

/-- The indices of all maps. A packed map takes the place of those it packs. -/
def mapSlots (document : Document) : Mapping Document.Maps := do
  let albedo ← mapSlot (some document.albedoPath) false
  let normal ← mapSlot document.normalMapPath true
  let heightmap ← mapSlot document.heightmapPath true
  match document.pbrMapPath with
  | some path =>
      let rough ← mapSlot (some path) true
      return ⟨albedo, normal, heightmap, noTexture, rough, noTexture⟩
  | none =>
      let metal ← mapSlot document.metalMapPath true
      let rough ← mapSlot document.roughMapPath true
      let occlusion ← mapSlot document.aoMapPath true
      return ⟨albedo, normal, heightmap, metal, rough, occlusion⟩

def materialDocument (s : Services) (id : AssetId) : Except LoadError Document :=
  match s.assets.read id with
  | .error cause => .error (.ofAsset cause)
  | .ok bytes => match (Json.read? bytes).bind Document.ofJson? with
      | none => .error (.unavailable "invalid material document: no material")
      | some document => .ok document

def loadMaterial (id : AssetId) (w : TextureTable × Services) :
    Except LoadError Material × (TextureTable × Services) :=
  match materialDocument w.2 id with
  | .error cause => (.error cause, w)
  | .ok document => match (mapSlots document).run w with
      | (.ok maps, w) => (.ok (document.material maps), w)
      | (.error cause, w) => (.error (.fatal cause), w)

def materialLoader : Loader (TextureTable × Services) AssetId Material materialSlots where
  kind := "material"
  placeholder := .ofPath missingMaterial
  describe := fun w id => w.2.assets.describe id
  load := fun id w =>
    let (result, shared) := loadMaterial id w.2
    (result, w.1, shared)
  release := fun _ shared => shared
  note := fun event shared => (shared.1, shared.2.note event)

end FrameEngine
