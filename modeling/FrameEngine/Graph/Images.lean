import FrameEngine.Graph.Usage

namespace FrameEngine.Graph

structure Aspects where
  bits : UInt32
  deriving DecidableEq

namespace Aspects

def color : Aspects := ⟨1⟩

def depth : Aspects := ⟨2⟩

def stencil : Aspects := ⟨4⟩

def depthStencil : Aspects := ⟨6⟩

def ofFormat (format : Format) : Aspects :=
  if format.raw ∈ [124, 125, 126] then depth
  else if format.raw = 127 then stencil
  else if format.raw ∈ [128, 129, 130] then depthStencil
  else color

end Aspects

/-- Aspects by image; the first entry of an image counts. -/
abbrev AspectTable := List (ImageHandle × Aspects)

namespace AspectTable

/-- A table in which the last entry of an image counts. -/
def ofEntries (entries : List (ImageHandle × Aspects)) : AspectTable := entries.reverse

def aspects (table : AspectTable) (image : ImageHandle) : Aspects :=
  ((table.find? (·.1 = image)).map (·.2)).getD .color

end AspectTable

structure ImageDescription where
  name : String
  format : Format
  width : Nat
  height : Nat
  deriving DecidableEq

def ImageDescription.aspects (description : ImageDescription) : Aspects := .ofFormat description.format

structure RenderImages where
  issued : Nat := 0
  live : List (ImageHandle × ImageDescription) := []

namespace RenderImages

def create (images : RenderImages) (description : ImageDescription) : ImageHandle × RenderImages :=
  (⟨images.issued⟩, ⟨images.issued + 1, images.live ++ [(⟨images.issued⟩, description)]⟩)

def get? (images : RenderImages) (image : ImageHandle) : Option ImageDescription :=
  (images.live.find? (·.1 = image)).map (·.2)

def release (images : RenderImages) (image : ImageHandle) : Option ImageDescription × RenderImages :=
  (images.get? image, { images with live := images.live.filter (·.1 ≠ image) })

def name (images : RenderImages) (image : ImageHandle) : String :=
  ((images.get? image).map (·.name)).getD image.text

def size (images : RenderImages) : Nat := images.live.length

def isEmpty (images : RenderImages) : Bool := images.live.isEmpty

def aspectTable (images : RenderImages) : AspectTable :=
  images.live.map fun (image, d) => (image, d.aspects)

end RenderImages

end FrameEngine.Graph
