import FrameEngine.Texture.Format

namespace FrameEngine.Material

def noTexture : UInt32 := 4294967295

structure Color where
  red : Float32
  green : Float32
  blue : Float32

def Color.black : Color := ⟨0, 0, 0⟩

def Color.white : Color := ⟨1, 1, 1⟩

def Color.sum (color : Color) : Float32 := color.red + color.green + color.blue

structure Flags where
  bits : UInt32
  deriving DecidableEq

namespace Flags

/-- Metalness, roughness and occlusion come from one map, in the place of the roughness map. -/
def packedPbr : Flags := ⟨1⟩

def alphaTest : Flags := ⟨2⟩

def ofWord (word : UInt32) : Flags := ⟨word &&& 3⟩

def contains (flags other : Flags) : Bool := flags.bits &&& other.bits = other.bits

def of (isPacked isTested : Bool) : Flags :=
  ⟨(if isPacked then packedPbr.bits else 0) ||| (if isTested then alphaTest.bits else 0)⟩

end Flags

structure Packed where
  albedoColor : Color
  metallic : Float32
  emissiveColor : Color
  roughness : Float32
  albedo : UInt32
  normal : UInt32
  heightmap : UInt32
  metal : UInt32
  rough : UInt32
  occlusion : UInt32
  flagWord : UInt32
  alphaCutoff : Float32
  heightmapScale : Float32

def wordBytes (word : UInt32) : List UInt8 :=
  [word.toUInt8, (word >>> 8).toUInt8, (word >>> 16).toUInt8, (word >>> 24).toUInt8]

def Color.words (color : Color) : List UInt32 :=
  [color.red.toBits, color.green.toBits, color.blue.toBits]

namespace Packed

def flags (m : Packed) : Flags := .ofWord m.flagWord

def textures (m : Packed) : List UInt32 :=
  [m.albedo, m.normal, m.heightmap, m.metal, m.rough, m.occlusion]

def words (m : Packed) : List UInt32 :=
  m.albedoColor.words ++ [m.metallic.toBits] ++ m.emissiveColor.words ++ [m.roughness.toBits] ++ m.textures ++
    [m.flagWord, m.alphaCutoff.toBits, m.heightmapScale.toBits, 0, 0, 0]

def bytes (m : Packed) : List UInt8 := m.words.flatMap wordBytes

end Packed

structure DrawState where
  noCull : Bool
  wireframe : Bool

end FrameEngine.Material

structure FrameEngine.Material where
  packed : Material.Packed
  draw : Material.DrawState
