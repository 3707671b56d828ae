import FrameEngine.Frame.Pass
import FrameEngine.Total

namespace FrameEngine.Frame

open FrameEngine.Graph

structure FrameGraph where
  graph : PassGraph Work := {}
  images : RenderImages := {}
  order : List PassId := []
  barriers : List (List ImageBarrier) := []
  output : Option ImageHandle := none
  built : Bool := false
  frames : Nat := 0

namespace FrameGraph

def createImage (g : FrameGraph) (description : ImageDescription) : ImageHandle × FrameGraph :=
  let (image, images) := g.images.create description
  (image, { g with images := images })

def addPass (g : FrameGraph) (pass : FramePass) : PassId × FrameGraph :=
  let (id, graph) := g.graph.add pass
  (id, { g with graph := graph, built := false })

def importImage (g : FrameGraph) (use : Usage) : FrameGraph :=
  { g with graph := g.graph.importImage use, built := false }

def setOutput (g : FrameGraph) (image : ImageHandle) : FrameGraph := { g with output := some image }

def setupPasses : List FramePass → Engine → Except GraphError Unit × List FramePass × Engine
  | [], e => (.ok (), [], e)
  | pass :: rest, e => match pass.work.setup pass.name e with
      | (.error cause, work, e) => (.error cause, { pass with work := work } :: rest, e)
      | (.ok (), work, e) =>
          let (result, rest, e) := setupPasses rest e
          (result, { pass with work := work } :: rest, e)

def barrierCount (barriers : List (List ImageBarrier)) : Nat := total (barriers.map (·.length))

def schedulePasses (g : FrameGraph) (e : Engine) : Except GraphError Unit × FrameGraph × Engine :=
  match g.graph.solveNoting e.services.journal with
  | (.error cause, _) => (.error cause, g, e)
  | (.ok order, journal) =>
      let e := e.withServices fun s => { s with journal := journal }
      match g.graph.barriers g.images.aspectTable order with
      | .error cause => (.error cause, g, e)
      | .ok barriers =>
          (.ok (), { g with order := order, barriers := barriers, built := true },
            e.note (.built (barrierCount barriers) order.length))

/-- Builds the graph. What was set up before an error stays so. -/
def build (g : FrameGraph) (e : Engine) : Except GraphError Unit × FrameGraph × Engine :=
  let (result, passes, e) := setupPasses g.graph.passes.toList e
  let g := { g with graph := { g.graph with passes := passes.toArray }, built := false }
  match result with
  | .error cause => (.error cause, g, e)
  | .ok () => g.schedulePasses e

def orderNames (g : FrameGraph) : List String := g.graph.namesOf g.order

def schedule (g : FrameGraph) : List (PassId × List ImageBarrier) := g.order.zip g.barriers

def passCommands (images : RenderImages) (frame : Nat) (pass : FramePass) (barriers : List ImageBarrier) :
    List Command :=
  (if barriers.isEmpty then [] else [.barrier barriers]) ++ [.beginPass pass.name] ++
    pass.work.during images frame ++ [.endPass]

def frameCommands (g : FrameGraph) (passes : List FramePass) : List Command :=
  (passes.flatMap fun pass => pass.work.before g.images g.frames) ++
    (List.zipWith (passCommands g.images g.frames) passes g.barriers).flatten

def record (g : FrameGraph) (e : Engine) : Except GraphError (List Command) × FrameGraph × Engine :=
  if g.built then
    match g.order.mapM g.graph.pass with
    | .error cause => (.error cause, g, e)
    | .ok passes =>
        (.ok (g.frameCommands passes), { g with frames := g.frames + 1 }, e.note (.recorded g.frames))
  else (.error .notBuilt, g, e)

end FrameGraph

end FrameEngine.Frame
