import FrameEngine.Graph.Barriers
import FrameEngine.Graph.Error
import FrameEngine.Graph.Search
import FrameEngine.Journal

namespace FrameEngine.Graph

structure Pass (ω : Type) where
  name : String
  io : PassIo
  work : ω

structure PassId where
  index : UInt32
  /-- How often the graph was cleared before. -/
  generation : UInt32
  deriving DecidableEq

structure PassGraph (ω : Type) where
  passes : Array (Pass ω) := #[]
  generation : UInt32 := 0
  imports : List Usage := []

namespace PassGraph

variable {ω : Type}

def size (g : PassGraph ω) : Nat := g.passes.size

def isEmpty (g : PassGraph ω) : Bool := g.passes.isEmpty

def idAt (g : PassGraph ω) (position : Nat) : PassId := ⟨UInt32.ofNat position, g.generation⟩

def add (g : PassGraph ω) (pass : Pass ω) : PassId × PassGraph ω :=
  (g.idAt g.size, { g with passes := g.passes.push pass })

def importImage (g : PassGraph ω) (use : Usage) : PassGraph ω :=
  { g with imports := g.imports.filter (·.image ≠ use.image) ++ [use] }

def clear (g : PassGraph ω) : PassGraph ω := { generation := g.generation + 1 }

def ids (g : PassGraph ω) : List PassId := (List.range g.size).map g.idAt

def position (g : PassGraph ω) (id : PassId) : Except GraphError (Fin g.passes.size) :=
  if h : id.index.toNat < g.passes.size then
    if id.generation = g.generation then .ok ⟨id.index.toNat, h⟩
    else .error (.stalePass id.index id.generation)
  else .error (.stalePass id.index id.generation)

def pass (g : PassGraph ω) (id : PassId) : Except GraphError (Pass ω) := do
  let position ← g.position id
  return g.passes[position]

def changePass (g : PassGraph ω) (id : PassId) (change : Pass ω → Pass ω) : Except GraphError (PassGraph ω) := do
  let position ← g.position id
  return { g with passes := g.passes.modify position change }

def passAt (g : PassGraph ω) (position : Fin g.passes.size) : Pass ω := g.passes[position]

def feeds (g : PassGraph ω) (producer consumer : PassId) : Except GraphError Bool := do
  let producer ← g.pass producer
  let consumer ← g.pass consumer
  return producer.io.feeds consumer.io

def names (g : PassGraph ω) : List String := g.passes.toList.map (·.name)

/-- The first write, in the order of passes and declarations, of an image that an earlier pass
writes: the image, and the positions of the earliest pass that writes it and of this one. -/
def conflict? (ios : List PassIo) : Option (ImageHandle × Nat × Nat) :=
  ios.zipIdx.findSome? fun (io, second) => io.writes.findSome? fun use =>
    ((ios.take second).findIdx? (·.writesImage use.image)).map fun first => (use.image, first, second)

/-- An edge goes from each pass to every other pass that reads what it writes. -/
def adjacency (g : PassGraph ω) : Adjacency g.passes.size :=
  Vector.ofFn fun i => (List.finRange g.passes.size).filter fun j =>
    i ≠ j ∧ g.passes[i].io.feeds g.passes[j].io

def nameAt (g : PassGraph ω) (position : Nat) : String := (g.passes[position]?.map (·.name)).getD ""

/-- Positions in an order in which every pass that writes an image comes before those that read
it. -/
def order (g : PassGraph ω) : Except GraphError (List (Fin g.passes.size)) :=
  match conflict? (g.passes.toList.map (·.io)) with
  | some (image, first, second) => .error (.multipleWriters image (g.nameAt first) (g.nameAt second))
  | none => match topologicalOrder g.adjacency with
      | .sorted order => .ok order
      | .cycle nodes => .error (.circularDependency (nodes.map fun node => g.passes[node].name))

def solve (g : PassGraph ω) : Except GraphError (List PassId) := do
  let order ← g.order
  return order.map fun position : Fin g.passes.size => g.idAt position

def namesOf (g : PassGraph ω) (order : List PassId) : List String :=
  order.filterMap fun id => (g.pass id).toOption.map (·.name)

def solveNoting (g : PassGraph ω) (journal : Journal) : Except GraphError (List PassId) × Journal :=
  match g.solve with
  | .ok order => (.ok order, journal.push (.solved (g.namesOf order)))
  | .error cause => (.error cause, journal)

def barriersFrom (g : PassGraph ω) (aspects : AspectTable) :
    List PassId → ImageStates → Except GraphError (List (List ImageBarrier))
  | [], _ => .ok []
  | id :: rest, states => do
      let pass ← g.pass id
      match ImageStates.passBarriers aspects pass.io states with
      | .error image => .error (.undefinedLayout image pass.name)
      | .ok (barriers, states) => return barriers :: (← g.barriersFrom aspects rest states)

def barriers (g : PassGraph ω) (aspects : AspectTable) (order : List PassId) :
    Except GraphError (List (List ImageBarrier)) :=
  g.barriersFrom aspects order (ImageStates.ofImports g.imports)

def debugText (g : PassGraph ω) : String :=
  "GraphSolver \x7b passes: " ++ Text.Quoted.bracketed (g.names.map Text.Quoted.quote) ++ ", generation: " ++
    toString g.generation ++ ", imports: " ++ toString g.imports.length ++ " \x7d"

end PassGraph

end FrameEngine.Graph
