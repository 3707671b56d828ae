import FrameEngine.Graph.Images

namespace FrameEngine.Graph

structure ImageBarrier where
  image : ImageHandle
  oldLayout : Layout
  newLayout : Layout
  aspects : Aspects
  sourceAccesses : Accesses
  targetAccesses : Accesses
  sourceStages : Stages
  targetStages : Stages
  deriving DecidableEq

namespace ImageBarrier

def between (write : Usage) (layout : Layout) (read : Usage) (aspects : Aspects) : ImageBarrier where
  image := read.image
  oldLayout := layout
  newLayout := read.layout
  aspects := aspects
  sourceAccesses := write.accesses
  targetAccesses := read.accesses
  sourceStages := write.stages
  targetStages := read.stages

def isLayoutTransition (barrier : ImageBarrier) : Bool := barrier.oldLayout ≠ barrier.newLayout

end ImageBarrier

structure SubresourceRange where
  aspects : Aspects
  firstMip : Nat
  mips : Nat
  firstLayer : Nat
  layers : Nat

structure MemoryBarrier where
  structureType : Nat
  sourceStages : Stages
  sourceAccesses : Accesses
  targetStages : Stages
  targetAccesses : Accesses
  oldLayout : Layout
  newLayout : Layout
  sourceFamily : Nat
  targetFamily : Nat
  image : UInt64
  range : SubresourceRange

namespace MemoryBarrier

def tag : Nat := 1000314002

def all : Nat := 4294967295

end MemoryBarrier

def ImageBarrier.onMemory (barrier : ImageBarrier) (image : UInt64) : MemoryBarrier where
  structureType := MemoryBarrier.tag
  sourceStages := barrier.sourceStages
  sourceAccesses := barrier.sourceAccesses
  targetStages := barrier.targetStages
  targetAccesses := barrier.targetAccesses
  oldLayout := barrier.oldLayout
  newLayout := barrier.newLayout
  sourceFamily := MemoryBarrier.all
  targetFamily := MemoryBarrier.all
  image := image
  range := ⟨barrier.aspects, 0, MemoryBarrier.all, 0, MemoryBarrier.all⟩

structure ImageState where
  write : Usage
  layout : Layout

/-- States of the images that have been written or imported; the first entry of an image counts. -/
abbrev ImageStates := List (ImageHandle × ImageState)

namespace ImageStates

def get? (states : ImageStates) (image : ImageHandle) : Option ImageState :=
  (states.find? (·.1 = image)).map (·.2)

/-- A write, or an import, starts afresh for its image. -/
def write (states : ImageStates) (use : Usage) : ImageStates := (use.image, ⟨use, use.layout⟩) :: states

def ofImports (imports : List Usage) : ImageStates := imports.foldl write []

/-- Barriers for reads, one for each image not in `seen`, and the states after them. The error is an
image without a state. -/
def readBarriers (aspects : AspectTable) :
    List Usage → List ImageHandle → ImageStates → Except ImageHandle (List ImageBarrier × ImageStates)
  | [], _, states => .ok ([], states)
  | read :: rest, seen, states =>
      if read.image ∈ seen then readBarriers aspects rest seen states
      else match states.get? read.image with
        | none => .error read.image
        | some state =>
            let barrier := ImageBarrier.between state.write state.layout read (aspects.aspects read.image)
            let states := (read.image, { state with layout := read.layout }) :: states
            match readBarriers aspects rest (read.image :: seen) states with
            | .error image => .error image
            | .ok (barriers, states) => .ok (barrier :: barriers, states)

def passBarriers (aspects : AspectTable) (io : PassIo) (states : ImageStates) :
    Except ImageHandle (List ImageBarrier × ImageStates) :=
  match readBarriers aspects io.reads [] states with
  | .error image => .error image
  | .ok (barriers, states) => .ok (barriers, io.writes.foldl write states)

end ImageStates

end FrameEngine.Graph
