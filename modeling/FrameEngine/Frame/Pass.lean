import FrameEngine.Engine.Context
import FrameEngine.Graph.Passes

namespace FrameEngine.Frame

open FrameEngine.Graph FrameEngine.Slots

structure DrawCall where
  /-- Slot of the material; none for draws of depth alone. -/
  material : Option Nat
  vertices : Nat
  instances : Nat
  deriving DecidableEq

inductive Command
  | barrier (barriers : List ImageBarrier)
  | upload (label : String) (bytes : Nat)
  | beginPass (name : String)
  | endPass
  | draw (call : DrawCall)
  | dispatch (x y z : Nat)
  deriving DecidableEq

def passNames (log : List Command) : List String :=
  log.filterMap fun
    | .beginPass name => some name
    | _ => none

def groupSide : Nat := 8

def groups (pixels : Nat) : Nat := (pixels + groupSide - 1) / groupSide

def dispatchOver (width height : Nat) : Command := .dispatch (groups width) (groups height) 1

inductive Action
  | draw (call : DrawCall)
  | dispatch (width height : Nat)
  | upload (label : String) (bytes : Nat)
  /-- Uploads as many bytes as frames were recorded. -/
  | frame
  /-- Uploads as many bytes as there are images. -/
  | images

def Action.command (images : RenderImages) (frame : Nat) : Action → Command
  | .draw call => .draw call
  | .dispatch width height => dispatchOver width height
  | .upload label bytes => .upload label bytes
  | .frame => .upload "frame" frame
  | .images => .upload "images" images.size

inductive Work
  | casters (vertices : Nat)
  /-- Draws geometry with each of its materials; `slots` and `ambient` are what setup has found. -/
  | geometry (materials : List String) (environment : Option String) (slots : List Nat) (ambient : Option Nat)
  | overlay (quads : Nat)
  | compute (width height : Nat)
  | actions (before during : List Action)

def cubeVertices : Nat := 36

def quadVertices : Nat := 6

def overlayVertexBytes : Nat := 20

namespace Work

def before (images : RenderImages) (frame : Nat) : Work → List Command
  | .overlay quads =>
      if quads = 0 then [] else [.upload "ui vertices" (quads * quadVertices * overlayVertexBytes)]
  | .actions before _ => before.map (Action.command images frame)
  | _ => []

def during (images : RenderImages) (frame : Nat) : Work → List Command
  | .casters vertices => if vertices = 0 then [] else [.draw ⟨none, vertices, 1⟩]
  | .geometry _ _ slots _ => slots.map fun slot => .draw ⟨some slot, cubeVertices, 1⟩
  | .overlay quads => if quads = 0 then [] else [.draw ⟨none, quads * quadVertices, 1⟩]
  | .compute width height => [dispatchOver width height]
  | .actions _ during => during.map (Action.command images frame)

/-- Leaves out what is equal to the item before it. -/
def mergeAdjacent : List Nat → List Nat
  | [] => []
  | slot :: rest => match mergeAdjacent rest with
      | next :: others => if slot = next then next :: others else slot :: next :: others
      | [] => [slot]

def noteResolved (slots : List Nat) (ambient : Option Nat) (e : Engine) : Engine :=
  (if slots.isEmpty then e.note .noMaterials else e).note (.resolved ambient slots)

def findAmbient (environment : Option String) (e : Engine) : Except SlotError (Option Nat) × Engine :=
  match environment with
  | none => (.ok none, e)
  | some path =>
      let (result, e) := e.loadPath .cubemaps path
      (result.map some, e)

def setup (name : String) (work : Work) (e : Engine) : Except GraphError Unit × Work × Engine :=
  match work with
  | .geometry materials environment slots ambient =>
      match e.loadPaths .materials materials with
      | (_, some cause, e) =>
          (.error (.setup name cause), .geometry materials environment slots ambient, e)
      | (found, none, e) =>
          let slots := mergeAdjacent found
          match findAmbient environment e with
          | (.error cause, e) =>
              (.error (.setup name cause), .geometry materials environment slots ambient, e)
          | (.ok ambient, e) =>
              (.ok (), .geometry materials environment slots ambient, noteResolved slots ambient e)
  | work => (.ok (), work, e)

end Work

abbrev FramePass := Pass Work

namespace FramePass

def shadowMap (target : ImageHandle) (vertices : Nat) : FramePass where
  name := "shadow_map"
  io := { writes := [.depthAttachmentWrite target] }
  work := .casters vertices

def geometry (shadow hdr : ImageHandle) (materials : List String) (environment : Option String) :
    FramePass where
  name := "opaque"
  io := { reads := [.fragmentSampled shadow], writes := [.colorAttachmentWrite hdr] }
  work := .geometry materials environment [] none

def ui (target : ImageHandle) (quads : Nat) : FramePass where
  name := "ui"
  io := { writes := [.colorAttachmentWrite target] }
  work := .overlay quads

def blur (hdr bloom : ImageHandle) (width height : Nat) : FramePass where
  name := "blur"
  io := { reads := [.computeSampled hdr], writes := [.computeStorageWrite bloom] }
  work := .compute width height

def tonemap (hdr ui output : ImageHandle) (bloom : Option ImageHandle) (width height : Nat) :
    FramePass where
  name := "tonemap"
  io :=
    { reads := [.computeSampled hdr, .computeSampled ui] ++ bloom.toList.map .computeSampled
      writes := [.computeStorageWrite output] }
  work := .compute width height

end FramePass

end FrameEngine.Frame
