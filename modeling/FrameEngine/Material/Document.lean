import FrameEngine.Json.Value
import FrameEngine.Material.Packed

namespace FrameEngine.Material

structure Document where
  albedoPath : String
  metallic : Float32
  roughness : Float32
  albedoColor : Color
  emissiveColor : Option Color
  alphaCutoff : Float32
  normalMapPath : Option String
  heightmapPath : Option String
  heightmapScale : Float32
  metalMapPath : Option String
  roughMapPath : Option String
  aoMapPath : Option String
  pbrMapPath : Option String
  cullOff : Option Json
  wireframe : Option Json

namespace Document

/-- Names of the fields, in the order in which an array gives them. -/
def names : List String :=
  ["albedoPath", "metallic", "roughness", "albedoColor", "emissiveColor", "alphaCutoff", "normalMapPath",
    "heightmapPath", "heightmapScale", "metalMapPath", "roughMapPath", "aoMapPath", "pbrMapPath", "cullOff",
    "wireframe"]

abbrev Members := List (String × Json)

/-- Takes members one by one; each needs a name that is text. -/
def addMembers (found : Members) : List (Option String × Json) → Option Members
  | [] => some found
  | (none, _) :: _ => none
  | (some name, value) :: rest =>
      if name ∉ names then addMembers found rest
      else if found.any (·.1 = name) then none
      else addMembers ((name, value) :: found) rest

def members? : Json → Option Members
  | .object members => addMembers [] members
  | .array items => if items.length = names.length then some (names.zip items) else none
  | _ => none

def get? (members : Members) (name : String) : Option Json := (members.find? (·.1 = name)).map (·.2)

def field (members : Members) (name : String) (absent : Option β) (decode : Json → Option β) :
    Option β :=
  match get? members name with
  | some value => decode value
  | none => absent

def text? : Json → Option String
  | .string text => text
  | _ => none

def number? : Json → Option Float32
  | .number n => n.toFloat32?
  | _ => none

def color? : Json → Option Color
  | .array [red, green, blue] => do return ⟨← number? red, ← number? green, ← number? blue⟩
  | _ => none

/-- A field that may be there: `null` is as good as nothing. -/
def optional (decode : Json → Option β) : Json → Option (Option β)
  | .null => some none
  | value => (decode value).map some

def any? (value : Json) : Option Json := if value.isSound then some value else none

def ofMembers? (members : Members) : Option Document := do
  return {
    albedoPath := ← field members "albedoPath" none text?
    metallic := ← field members "metallic" (some 0) number?
    roughness := ← field members "roughness" (some 0.5) number?
    albedoColor := ← field members "albedoColor" (some .white) color?
    emissiveColor := ← field members "emissiveColor" (some none) (optional color?)
    alphaCutoff := ← field members "alphaCutoff" (some 0) number?
    normalMapPath := ← field members "normalMapPath" (some none) (optional text?)
    heightmapPath := ← field members "heightmapPath" (some none) (optional text?)
    heightmapScale := ← field members "heightmapScale" (some 0) number?
    metalMapPath := ← field members "metalMapPath" (some none) (optional text?)
    roughMapPath := ← field members "roughMapPath" (some none) (optional text?)
    aoMapPath := ← field members "aoMapPath" (some none) (optional text?)
    pbrMapPath := ← field members "pbrMapPath" (some none) (optional text?)
    cullOff := ← field members "cullOff" (some none) (optional any?)
    wireframe := ← field members "wireframe" (some none) (optional any?) }

/-- A document is an object, or the array of its fields in their order. -/
def ofJson? (document : Json) : Option Document := (members? document).bind ofMembers?

/-- A flag is on if it is there and not `false`. -/
def isOn : Option Json → Bool
  | none => false
  | some (.bool value) => value
  | some _ => true

/-- Emissive colors with a sum below this are black. -/
def emissiveThreshold : Float32 := 0.003

def emissive (document : Document) : Color :=
  match document.emissiveColor with
  | some color => if color.sum ≥ emissiveThreshold then color else .black
  | none => .black

structure Maps where
  albedo : UInt32
  normal : UInt32
  heightmap : UInt32
  metal : UInt32
  rough : UInt32
  occlusion : UInt32

def material (document : Document) (maps : Maps) : Material where
  packed :=
    { albedoColor := document.albedoColor
      metallic := document.metallic
      emissiveColor := document.emissive
      roughness := document.roughness
      albedo := maps.albedo
      normal := maps.normal
      heightmap := maps.heightmap
      metal := maps.metal
      rough := maps.rough
      occlusion := maps.occlusion
      flagWord := (Flags.of document.pbrMapPath.isSome (document.alphaCutoff > 0)).bits
      alphaCutoff := document.alphaCutoff
      heightmapScale := document.heightmapScale }
  draw := ⟨isOn document.cullOff, isOn document.wireframe⟩

end Document

end FrameEngine.Material
