import FrameEngine.Indexing
import FrameEngine.Total

namespace FrameEngine.Graph

variable {n : Nat}

/-- The nodes that edges of a node lead to, in ascending order. -/
abbrev Adjacency (n : Nat) := Vector (List (Fin n)) n

inductive Mark
  | unvisited
  | onStack
  | done
  deriving DecidableEq

structure SearchFrame (n : Nat) where
  node : Fin n
  edges : List (Fin n)

structure Search (n : Nat) where
  roots : List (Fin n)
  marks : Vector Mark n
  /-- The node that was entered last comes first. -/
  stack : List (SearchFrame n)
  /-- The nodes that are done; the one that was done last comes first. -/
  order : List (Fin n)

inductive SearchStep (n : Nat)
  | next (search : Search n)
  | sorted (order : List (Fin n))
  | cycle (nodes : List (Fin n))

inductive SearchResult (n : Nat)
  | sorted (order : List (Fin n))
  | cycle (nodes : List (Fin n))

namespace Search

def start (n : Nat) : Search n := ⟨(List.finRange n).reverse, Vector.replicate n .unvisited, [], []⟩

def enter (adjacency : Adjacency n) (s : Search n) (node : Fin n) : Search n :=
  { s with
    marks := s.marks.set node.val .onStack node.isLt
    stack := ⟨node, (adjacency.get node).reverse⟩ :: s.stack }

/-- The cycle that an edge from the top of the stack back to `target` closes: the stack from `target`
up. The whole stack is taken if `target` is not on it. -/
def cycleThrough (stack : List (SearchFrame n)) (target : Fin n) : List (Fin n) :=
  let nodes := (stack.map (·.node)).reverse
  nodes.drop ((nodes.idxOf? target).getD 0) ++ [target]

def step (adjacency : Adjacency n) (s : Search n) : SearchStep n :=
  match s.stack with
  | [] => match s.roots with
      | [] => .sorted s.order
      | root :: roots =>
          if s.marks.get root = .unvisited then
            .next (({ s with roots := roots } : Search n).enter adjacency root)
          else .next { s with roots := roots }
  | ⟨node, []⟩ :: below =>
      .next { s with
        marks := s.marks.set node.val .done node.isLt
        stack := below
        order := node :: s.order }
  | ⟨node, child :: edges⟩ :: below =>
      match s.marks.get child with
      | .unvisited => .next (({ s with stack := ⟨node, edges⟩ :: below } : Search n).enter adjacency child)
      | .onStack => .cycle (cycleThrough s.stack child)
      | .done => .next { s with stack := ⟨node, edges⟩ :: below }

def nodeCost (adjacency : Adjacency n) (marks : Vector Mark n) (node : Fin n) : Nat :=
  if marks.get node = .unvisited then (adjacency.get node).length + 2 else 0

/-- A bound on the steps that remain. -/
def potential (adjacency : Adjacency n) (s : Search n) : Nat :=
  s.roots.length + total ((List.finRange n).map (nodeCost adjacency s.marks)) +
    total (s.stack.map fun frame => frame.edges.length + 1)

theorem nodeCost_set_self (adjacency : Adjacency n) (marks : Vector Mark n) (node : Fin n) (mark : Mark)
    (hm : mark ≠ .unvisited) : nodeCost adjacency (marks.set node.val mark node.isLt) node = 0 := by
  simp [nodeCost, Indexing.get_set_self, hm]

theorem nodeCost_set_le (adjacency : Adjacency n) (marks : Vector Mark n) (node : Fin n) (mark : Mark)
    (hm : mark ≠ .unvisited) (v : Fin n) :
    nodeCost adjacency (marks.set node.val mark node.isLt) v ≤ nodeCost adjacency marks v := by
  by_cases hv : node = v
  · subst hv
    simp [nodeCost_set_self _ _ _ _ hm]
  · simp [nodeCost, Indexing.get_set_of_ne _ _ hv]

theorem potential_enter (adjacency : Adjacency n) (s : Search n) (node : Fin n)
    (h : s.marks.get node = .unvisited) :
    (s.enter adjacency node).potential adjacency < s.potential adjacency := by
  have hs := total_map_add_le (nodeCost adjacency s.marks)
    (nodeCost adjacency (s.marks.set node.val .onStack node.isLt)) ((adjacency.get node).length + 2)
    (List.finRange n) node (List.mem_finRange node)
    (by rw [nodeCost_set_self _ _ _ _ (by simp)]; simp [nodeCost, h])
    (fun v _ => nodeCost_set_le _ _ _ _ (by simp) v)
  simp only [potential, enter, List.map_cons, total_cons, List.length_reverse]
  omega

theorem potential_step {adjacency : Adjacency n} {s s' : Search n} (h : s.step adjacency = .next s') :
    s'.potential adjacency < s.potential adjacency := by
  unfold step at h
  split at h
  next hstack =>
    split at h
    · simp at h
    next root roots hroots =>
      split at h
      next hm =>
        cases h
        refine Nat.lt_of_lt_of_le (potential_enter adjacency _ root hm) ?_
        simp [potential, hroots]
      next =>
        cases h
        simp [potential, hroots]
  next node below hstack =>
    cases h
    have hs := total_map_le (nodeCost adjacency s.marks)
      (nodeCost adjacency (s.marks.set node.val .done node.isLt)) (List.finRange n)
      fun v _ => nodeCost_set_le _ _ _ _ (by simp) v
    simp only [potential, hstack, List.map_cons, total_cons, List.length_nil]
    omega
  next node child edges below hstack =>
    split at h
    next hm =>
      cases h
      refine Nat.lt_of_lt_of_le (potential_enter adjacency _ child hm) ?_
      simp only [potential, hstack, List.map_cons, total_cons, List.length_cons]
      omega
    · simp at h
    next =>
      cases h
      simp only [potential, hstack, List.map_cons, total_cons, List.length_cons]
      omega

def run (adjacency : Adjacency n) (s : Search n) : SearchResult n :=
  match _h : s.step adjacency with
  | .next s' => run adjacency s'
  | .sorted order => .sorted order
  | .cycle nodes => .cycle nodes
termination_by s.potential adjacency
decreasing_by exact potential_step _h

end Search

/-- Orders the nodes of a graph, or finds a cycle in it. Roots and edges are tried from the last to the first, and a node
is put in front of the order once everything behind it is there. -/
def topologicalOrder (adjacency : Adjacency n) : SearchResult n := (Search.start n).run adjacency

end FrameEngine.Graph
