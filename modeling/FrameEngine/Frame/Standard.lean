import FrameEngine.Frame.Graph

namespace FrameEngine.Frame

open FrameEngine.Graph

structure FrameConfig where
  width : Nat := 1280
  height : Nat := 720
  shadowResolution : Nat := 2048
  blur : Bool := false

structure Scene where
  materials : List String := []
  environment : Option String := none
  quads : Nat := 0

def hdrFormat : Format := .rgba16Float

def shadowFormat : Format := .depth32Float

def outputFormat : Format := .rgba8Unorm

namespace FrameGraph

def addBloom (g : FrameGraph) (hdr : ImageHandle) (width height : Nat) : ImageHandle × FrameGraph :=
  let (width, height) := (max (width / 2) 1, max (height / 2) 1)
  let (bloom, g) := g.createImage ⟨"bloom", hdrFormat, width, height⟩
  (bloom, (g.addPass (.blur hdr bloom width height)).2)

def standard (config : FrameConfig) (scene : Scene) : FrameGraph :=
  let (width, height) := (config.width, config.height)
  let g : FrameGraph := {}
  let (shadow, g) :=
    g.createImage ⟨"shadow_map", shadowFormat, config.shadowResolution, config.shadowResolution⟩
  let (hdr, g) := g.createImage ⟨"hdr", hdrFormat, width, height⟩
  let (ui, g) := g.createImage ⟨"ui", outputFormat, width, height⟩
  let (output, g) := g.createImage ⟨"output", outputFormat, width, height⟩
  let g := (g.addPass (.shadowMap shadow cubeVertices)).2
  let g := (g.addPass (.geometry shadow hdr scene.materials scene.environment)).2
  let g := (g.addPass (.ui ui scene.quads)).2
  let (bloom, g) := if config.blur then
      let (bloom, g) := g.addBloom hdr width height
      (some bloom, g)
    else (none, g)
  let g := (g.addPass (.tonemap hdr ui output bloom width height)).2
  g.setOutput output

end FrameGraph

end FrameEngine.Frame
