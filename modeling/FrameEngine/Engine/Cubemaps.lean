import FrameEngine.Engine.Services
import FrameEngine.Json.Reader

namespace FrameEngine

open FrameEngine.Asset FrameEngine.Cubemap FrameEngine.Jobs FrameEngine.Slots FrameEngine.Texture

def missingCubemap : String := "Cubemaps/missing.json"

abbrev cubemapSlots : Nat := 64

abbrev CubemapTable := Table AssetId GpuTexture cubemapSlots

def faceOrder : List (Fin faceCount) := List.finRange faceCount

def decodeFace (s : Services) (path : String) : Except String TextureData :=
  match s.assets.read (.ofPath path) with
  | .error cause => .error cause.message
  | .ok bytes => match s.decode? bytes true with
      | none => .error (path ++ ": " ++ Image.unknownFormat)
      | some face => .ok face

def facesOf (s : Services) (paths : Vector String faceCount) (order : List (Fin faceCount)) :
    Except LoadError (Vector TextureData faceCount) := do
  decoded (← taken (collect (fun face => decodeFace s (paths.get face)) order))

def cubemapOfFaces (s : Services) (paths : Vector String faceCount)
    (decoding mipping : List (Fin faceCount)) :
    Except LoadError CubemapData := do
  let faces ← facesOf s paths decoding
  assemble faces mipping

namespace Services

def registerFaces (s : Services) (paths : Vector String faceCount) : Services :=
  paths.toList.foldl (fun s path => (s.register path).2) s

/-- The faces of a cubemap, which a batch of jobs decodes. They are registered once a list is there for
the batch. -/
def decodeFaces (paths : Vector String faceCount) (s : Services) :
    Except LoadError (Vector TextureData faceCount) × Services :=
  match s.jobs.runBatch faceOrder with
  | .error cause => (.error (.ofJob cause), s)
  | .ok (order, jobs) =>
      let s := { s.registerFaces paths with jobs := jobs }
      (facesOf s paths order, s)

def assembleFaces (faces : Vector TextureData faceCount) (s : Services) :
    Except LoadError CubemapData × Services :=
  match checkSquare faces with
  | .error cause => (.error cause, s)
  | .ok () => match s.jobs.runBatch faceOrder with
      | .error cause => (.error (.ofJob cause), s)
      | .ok (order, jobs) => (ofSquares faces order, { s with jobs := jobs })

def cubemapData (id : AssetId) (s : Services) : Except LoadError CubemapData × Services :=
  match s.assets.read id with
  | .error cause => (.error (.ofAsset cause), s)
  | .ok bytes => match facePaths (Json.read? bytes) with
      | .error cause => (.error cause, s)
      | .ok paths => match s.decodeFaces paths with
          | (.error cause, s) => (.error cause, s)
          | (.ok faces, s) => s.assembleFaces faces

def loadCubemap (id : AssetId) (s : Services) : Except LoadError GpuTexture × Services :=
  match s.cubemapData id with
  | (.error cause, s) => (.error cause, s)
  | (.ok data, s) => match s.uploader.uploadCubemap (s.assets.describe id) data with
      | .error cause => (.error (.fatal cause), s)
      | .ok (texture, uploader) => (.ok texture, { s with uploader := uploader })

end Services

def cubemapLoader : Loader Services AssetId GpuTexture cubemapSlots where
  kind := "cubemap"
  placeholder := .ofPath missingCubemap
  describe := fun s id => s.assets.describe id
  load := fun id w =>
    let (result, s) := w.2.loadCubemap id
    (result, w.1, s)
  release := Services.destroy
  note := Services.note

end FrameEngine
