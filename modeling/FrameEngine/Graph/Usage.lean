import FrameEngine.Texture.Format

namespace FrameEngine.Graph

structure ImageHandle where
  raw : Nat
  deriving DecidableEq

def ImageHandle.text (image : ImageHandle) : String := "#" ++ toString image.raw

structure Layout where
  raw : Int
  deriving DecidableEq

namespace Layout

def general : Layout := ⟨1⟩

def colorAttachment : Layout := ⟨2⟩

def depthAttachment : Layout := ⟨3⟩

def shaderRead : Layout := ⟨5⟩

end Layout

structure Stages where
  bits : UInt64
  deriving DecidableEq

namespace Stages

def fragmentShader : Stages := ⟨0x80⟩

def lateFragmentTests : Stages := ⟨0x200⟩

def colorOutput : Stages := ⟨0x400⟩

def computeShader : Stages := ⟨0x800⟩

def allCommands : Stages := ⟨0x10000⟩

end Stages

structure Accesses where
  bits : UInt64
  deriving DecidableEq

namespace Accesses

def shaderRead : Accesses := ⟨0x20⟩

def shaderWrite : Accesses := ⟨0x40⟩

def colorWrite : Accesses := ⟨0x100⟩

def depthWrite : Accesses := ⟨0x400⟩

def memoryWrite : Accesses := ⟨0x10000⟩

end Accesses

/-- One use of an image. For a write, `layout` is the layout the image is left in. -/
structure Usage where
  image : ImageHandle
  layout : Layout
  stages : Stages
  accesses : Accesses
  deriving DecidableEq

namespace Usage

def colorAttachmentWrite (image : ImageHandle) : Usage :=
  ⟨image, .colorAttachment, .colorOutput, .colorWrite⟩

def depthAttachmentWrite (image : ImageHandle) : Usage :=
  ⟨image, .depthAttachment, .lateFragmentTests, .depthWrite⟩

def fragmentSampled (image : ImageHandle) : Usage :=
  ⟨image, .shaderRead, .fragmentShader, .shaderRead⟩

def computeSampled (image : ImageHandle) : Usage :=
  ⟨image, .shaderRead, .computeShader, .shaderRead⟩

def computeStorageWrite (image : ImageHandle) : Usage :=
  ⟨image, .general, .computeShader, .shaderWrite⟩

def external (image : ImageHandle) (layout : Layout) : Usage :=
  ⟨image, layout, .allCommands, .memoryWrite⟩

end Usage

structure PassIo where
  reads : List Usage := []
  writes : List Usage := []
  deriving DecidableEq

namespace PassIo

def readsImage (io : PassIo) (image : ImageHandle) : Bool := io.reads.any (·.image = image)

def writesImage (io : PassIo) (image : ImageHandle) : Bool := io.writes.any (·.image = image)

def feeds (producer consumer : PassIo) : Bool :=
  producer.writes.any fun use => consumer.readsImage use.image

end PassIo

end FrameEngine.Graph
