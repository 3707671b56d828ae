import FrameEngine.Engine.Cubemaps
import FrameEngine.Engine.Materials

namespace FrameEngine

open FrameEngine.Asset FrameEngine.Jobs FrameEngine.Slots FrameEngine.Texture

structure Engine where
  services : Services
  textures : TextureTable
  materials : MaterialTable
  cubemaps : CubemapTable

inductive TableName
  | textures
  | materials
  | cubemaps
  deriving DecidableEq

namespace Engine

/-- An engine with empty tables; the assets that stand in for missing ones are registered. -/
def ofServices (s : Services) : Engine where
  services := [missingTexture, missingMaterial, missingCubemap].foldl (fun s path => (s.register path).2) s
  textures := .empty
  materials := .empty
  cubemaps := .empty

def start (workers lists : Nat) (root : Option AssetRoot) : Except JobError Engine := do
  let jobs ← Pool.start workers lists
  return ofServices { assets := { root := root }, jobs := jobs }

def withServices (e : Engine) (f : Services → Services) : Engine :=
  { e with services := f e.services }

def note (e : Engine) (event : Event) : Engine := e.withServices (Services.note event)

def register (e : Engine) (path : String) : AssetId × Engine :=
  let (id, s) := e.services.register path
  (id, { e with services := s })

def insertBytes (e : Engine) (path : String) (bytes : ByteArray) : AssetId × Engine :=
  let (id, assets) := e.services.assets.insertBytes path bytes
  (id, e.withServices fun s => { s with assets := assets })

def loadOrGet (e : Engine) (table : TableName) (id : AssetId) : Except SlotError Nat × Engine :=
  match table with
  | .textures =>
      let (result, textures, s) := textureLoader.loadOrGet id (e.textures, e.services)
      (result.map (·.val), { e with textures := textures, services := s })
  | .materials =>
      let (result, materials, textures, s) := materialLoader.loadOrGet id (e.materials, e.textures, e.services)
      (result.map (·.val), { e with materials := materials, textures := textures, services := s })
  | .cubemaps =>
      let (result, cubemaps, s) := cubemapLoader.loadOrGet id (e.cubemaps, e.services)
      (result.map (·.val), { e with cubemaps := cubemaps, services := s })

def loadPath (e : Engine) (table : TableName) (path : String) : Except SlotError Nat × Engine :=
  let (id, e) := e.register path
  e.loadOrGet table id

/-- Loads paths one after another, up to the first that fails. -/
def loadPaths (e : Engine) (table : TableName) : List String → List Nat × Option SlotError × Engine
  | [] => ([], none, e)
  | path :: rest => match e.loadPath table path with
      | (.error cause, e) => ([], some cause, e)
      | (.ok slot, e) =>
          let (slots, cause, e) := e.loadPaths table rest
          (slot :: slots, cause, e)

def unload (e : Engine) (table : TableName) (slot : Nat) : Bool × Engine :=
  match table with
  | .textures =>
      let (done, textures, s) := textureLoader.unload slot (e.textures, e.services)
      (done, { e with textures := textures, services := s })
  | .materials =>
      let (done, materials, textures, s) := materialLoader.unload slot (e.materials, e.textures, e.services)
      (done, { e with materials := materials, textures := textures, services := s })
  | .cubemaps =>
      let (done, cubemaps, s) := cubemapLoader.unload slot (e.cubemaps, e.services)
      (done, { e with cubemaps := cubemaps, services := s })

def unloadAll (e : Engine) (table : TableName) : Engine :=
  match table with
  | .textures =>
      let (textures, s) := textureLoader.unloadAll (e.textures, e.services)
      { e with textures := textures, services := s }
  | .materials =>
      let (materials, textures, s) := materialLoader.unloadAll (e.materials, e.textures, e.services)
      { e with materials := materials, textures := textures, services := s }
  | .cubemaps =>
      let (cubemaps, s) := cubemapLoader.unloadAll (e.cubemaps, e.services)
      { e with cubemaps := cubemaps, services := s }

def drop (e : Engine) : Services :=
  let (textures, s) := materialLoader.drop (e.materials, e.textures, e.services)
  textureLoader.drop (textures, cubemapLoader.drop (e.cubemaps, s))

def cubemapData (e : Engine) (id : AssetId) : Except LoadError Cubemap.CubemapData × Engine :=
  let (result, s) := e.services.cubemapData id
  (result, { e with services := s })

def tablesDebugText (e : Engine) : String :=
  "ResourceTables \x7b textures: " ++ toString e.textures.size ++ ", materials: " ++ toString e.materials.size ++
    ", cubemaps: " ++ toString e.cubemaps.size ++ " \x7d"

end Engine

end FrameEngine
