import FrameEngine.Cubemap.Mips
import FrameEngine.Json.Value
import FrameEngine.Slots.Error
import FrameEngine.Total

namespace FrameEngine.Cubemap

open FrameEngine.Slots FrameEngine.Texture

abbrev faceCount : Nat := 6

structure CubemapLevel where
  size : Nat
  faces : Vector (Array UInt8) faceCount

structure CubemapData where
  size : Nat
  format : Format
  /-- The largest level comes first. -/
  levels : List CubemapLevel

def CubemapData.byteCount (data : CubemapData) : Nat :=
  total (data.levels.map fun level => total (level.faces.toList.map (·.size)))

def paths? : Json → Option (List String)
  | .array items => items.mapM fun
      | .string text => text
      | _ => none
  | _ => none

def facePaths (document : Option Json) : Except LoadError (Vector String faceCount) :=
  match document.bind paths? with
  | none => .error (.unavailable "invalid cubemap document: no list of paths")
  | some paths =>
      if h : paths.length = faceCount then .ok ⟨paths.toArray, h⟩
      else .error (.unavailable ("cubemap document lists " ++ toString paths.length ++ " faces, expected " ++
        toString faceCount))

/-- What six jobs leave when they run and store their results in the given order. -/
def collect {β : Type} (job : Fin faceCount → β) (order : List (Fin faceCount)) :
    Vector (Option β) faceCount :=
  order.foldl (fun results (face : Fin faceCount) => results.set face.val (some (job face)) face.isLt)
    (Vector.replicate faceCount none)

def taken {β : Type} (results : Vector (Option β) faceCount) : Except LoadError (Vector β faceCount) :=
  let found := results.toList.filterMap id
  if h : found.length = faceCount then .ok ⟨found.toArray, h⟩
  else .error (.unavailable "cubemap face job produced no output")

/-- All faces, or why the first of them that failed has done so. -/
def decoded (faces : Vector (Except String TextureData) faceCount) :
    Except LoadError (Vector TextureData faceCount) :=
  match faces.mapM id with
  | .ok faces => .ok faces
  | .error reason => .error (.unavailable reason)

def level (chains : Vector (List (Array UInt8)) faceCount) (size i : Nat) : CubemapLevel where
  size := size
  faces := chains.map fun chain => chain.getD i #[]

def levelsFrom (chains : Vector (List (Array UInt8)) faceCount) (size i : Nat) : Nat → List CubemapLevel
  | 0 => []
  | more + 1 => level chains size i :: levelsFrom chains (half size) (i + 1) more

def uploadFormat (format : Format) : Format := if format = .rgba8Srgb then .rgba8Unorm else format

def misshapen? (faces : Vector TextureData faceCount) (size : Nat) : Option TextureData :=
  faces.toList.find? fun face => face.width ≠ size ∨ face.height ≠ size

def misshapenReason (size : Nat) (face : TextureData) : String :=
  "cubemap faces must share one square size, got " ++ toString size ++ "x" ++ toString size ++ " and " ++
    toString face.width ++ "x" ++ toString face.height

def checkSquare (faces : Vector TextureData faceCount) : Except LoadError Unit :=
  let size := faces[0].width
  match misshapen? faces size with
  | some face => .error (.unavailable (misshapenReason size face))
  | none => .ok ()

def ofSquares (faces : Vector TextureData faceCount) (order : List (Fin faceCount)) :
    Except LoadError CubemapData := do
  let size := faces[0].width
  let mips := mipCount size
  let chains ← taken (collect (fun face => faceLevels (faces.get face) mips) order)
  return ⟨size, uploadFormat faces[0].format, levelsFrom chains size 0 mips⟩

/-- Puts a cubemap together from its faces; the jobs that make the mips store them in the given
order. -/
def assemble (faces : Vector TextureData faceCount) (order : List (Fin faceCount)) :
    Except LoadError CubemapData := do
  checkSquare faces
  ofSquares faces order

end FrameEngine.Cubemap
