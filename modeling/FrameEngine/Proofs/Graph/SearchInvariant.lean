import FrameEngine.Graph.Search
import Mathlib.Data.List.Chain
import Mathlib.Data.List.Nodup

namespace FrameEngine.Graph

variable {n : Nat}

def Edge (adjacency : Adjacency n) (i j : Fin n) : Prop := j ∈ adjacency.get i

namespace Search

def path (s : Search n) : List (Fin n) := s.stack.map (·.node)

inductive Move (adjacency : Adjacency n) : Search n → SearchStep n → Prop
  | sorted (marks) (order) : Move adjacency ⟨[], marks, [], order⟩ (.sorted order)
  | enterRoot (root) (roots) (marks : Vector Mark n) (order) (h : marks.get root = .unvisited) :
      Move adjacency ⟨root :: roots, marks, [], order⟩ (.next (enter adjacency ⟨roots, marks, [], order⟩ root))
  | passRoot (root) (roots) (marks : Vector Mark n) (order) (h : marks.get root ≠ .unvisited) :
      Move adjacency ⟨root :: roots, marks, [], order⟩ (.next ⟨roots, marks, [], order⟩)
  | leave (roots) (marks) (node) (below) (order) :
      Move adjacency ⟨roots, marks, ⟨node, []⟩ :: below, order⟩
        (.next ⟨roots, marks.set node.val .done node.isLt, below, node :: order⟩)
  | enterChild (roots) (marks : Vector Mark n) (node child) (edges) (below) (order)
      (h : marks.get child = .unvisited) :
      Move adjacency ⟨roots, marks, ⟨node, child :: edges⟩ :: below, order⟩
        (.next (enter adjacency ⟨roots, marks, ⟨node, edges⟩ :: below, order⟩ child))
  | passChild (roots) (marks : Vector Mark n) (node child) (edges) (below) (order)
      (h : marks.get child = .done) :
      Move adjacency ⟨roots, marks, ⟨node, child :: edges⟩ :: below, order⟩
        (.next ⟨roots, marks, ⟨node, edges⟩ :: below, order⟩)
  | close (roots) (marks : Vector Mark n) (node child) (edges) (below) (order)
      (h : marks.get child = .onStack) :
      Move adjacency ⟨roots, marks, ⟨node, child :: edges⟩ :: below, order⟩
        (.cycle (cycleThrough (⟨node, child :: edges⟩ :: below) child))

theorem step_move (adjacency : Adjacency n) (s : Search n) : Move adjacency s (s.step adjacency) := by
  obtain ⟨roots, marks, stack, order⟩ := s
  match stack with
  | [] =>
      match roots with
      | [] => exact .sorted marks order
      | root :: roots =>
          by_cases h : marks.get root = .unvisited
          · simpa only [step, h, if_true] using Move.enterRoot root roots marks order h
          · simpa only [step, h, if_false] using Move.passRoot root roots marks order h
  | ⟨node, []⟩ :: below => exact .leave roots marks node below order
  | ⟨node, child :: edges⟩ :: below =>
      cases h : marks.get child with
      | unvisited => simpa only [step, h] using Move.enterChild roots marks node child edges below order h
      | onStack => simpa only [step, h] using Move.close roots marks node child edges below order h
      | done => simpa only [step, h] using Move.passChild roots marks node child edges below order h

def Forward (adjacency : Adjacency n) : List (Fin n) → Prop
  | [] => True
  | node :: rest => (∀ v, Edge adjacency node v → v ∈ rest) ∧ Forward adjacency rest

/-- Every edge out of a node on the stack is yet to be tried, or it leads to a settled node or to a
node above. -/
def Tried (adjacency : Adjacency n) : List (Fin n) → List (SearchFrame n) → Prop
  | _, [] => True
  | settled, frame :: below =>
      (∀ v, Edge adjacency frame.node v → v ∈ frame.edges ∨ v ∈ settled) ∧
        Tried adjacency (frame.node :: settled) below

theorem Tried.mono {adjacency : Adjacency n} {settled settled' : List (Fin n)} {stack : List (SearchFrame n)}
    (h : Tried adjacency settled stack) (hs : settled ⊆ settled') : Tried adjacency settled' stack := by
  induction stack generalizing settled settled' with
  | nil => trivial
  | cons frame below ih =>
      refine ⟨fun v hv => (h.1 v hv).imp_right fun hv => hs hv, ih h.2 ?_⟩
      exact List.cons_subset_cons _ hs

/-- The marks say where each node is, and the stack is a path of edges. -/
structure Coherent (adjacency : Adjacency n) (s : Search n) : Prop where
  onStack_iff : ∀ v, s.marks.get v = .onStack ↔ v ∈ s.path
  done_iff : ∀ v, s.marks.get v = .done ↔ v ∈ s.order
  path_nodup : s.path.Nodup
  order_nodup : s.order.Nodup
  linked : s.path.IsChain fun upper lower => Edge adjacency lower upper
  untried : ∀ frame ∈ s.stack, ∀ v ∈ frame.edges, Edge adjacency frame.node v
  forward : Forward adjacency s.order

structure Invariant (adjacency : Adjacency n) (s : Search n) : Prop extends Coherent adjacency s where
  tried : Tried adjacency s.order s.stack
  covered : ∀ v, v ∈ s.roots ∨ s.marks.get v ≠ .unvisited

theorem invariant_start (adjacency : Adjacency n) : Invariant adjacency (start n) where
  onStack_iff v := by simp [start, path, Vector.get]
  done_iff v := by simp [start, Vector.get]
  path_nodup := List.nodup_nil
  order_nodup := List.nodup_nil
  linked := List.IsChain.nil
  untried _ hf := by cases hf
  forward := trivial
  tried := trivial
  covered v := Or.inl (by simp [start])

/-- A node may be entered when no node is on the stack, or from the top of the stack along an edge. -/
theorem Coherent.enter {adjacency : Adjacency n} {s : Search n} (hs : Coherent adjacency s) {node : Fin n}
    (hm : s.marks.get node = .unvisited) (hl : ∀ top ∈ s.path.head?, Edge adjacency top node) :
    Coherent adjacency (s.enter adjacency node) where
  onStack_iff v := by
    by_cases hv : node = v
    · subst v; simp [Search.enter, path, Indexing.get_set_self]
    · simp only [Search.enter, path, Indexing.get_set_of_ne _ _ hv, List.map_cons, List.mem_cons, Ne.symm hv,
        false_or]
      exact hs.onStack_iff v
  done_iff v := by
    by_cases hv : node = v
    · subst v
      have ho : node ∉ s.order := fun h => by simp [(hs.done_iff node).mpr h] at hm
      simp [Search.enter, Indexing.get_set_self, ho]
    · simp only [Search.enter, Indexing.get_set_of_ne _ _ hv]
      exact hs.done_iff v
  path_nodup := by
    refine List.nodup_cons.mpr ⟨fun h => ?_, hs.path_nodup⟩
    simp [(hs.onStack_iff node).mpr h] at hm
  order_nodup := hs.order_nodup
  linked := List.isChain_cons.mpr ⟨hl, hs.linked⟩
  untried frame hf v hv := by
    rcases List.mem_cons.mp hf with rfl | hf
    · exact List.mem_reverse.mp hv
    · exact hs.untried frame hf v hv
  forward := hs.forward

theorem Coherent.leave {adjacency : Adjacency n} {roots : List (Fin n)} {marks : Vector Mark n} {node : Fin n}
    {below : List (SearchFrame n)} {order : List (Fin n)}
    (hs : Coherent adjacency ⟨roots, marks, ⟨node, []⟩ :: below, order⟩)
    (he : ∀ v, Edge adjacency node v → v ∈ order) :
    Coherent adjacency ⟨roots, marks.set node.val .done node.isLt, below, node :: order⟩ where
  onStack_iff v := by
    have hn := (List.nodup_cons.mp hs.path_nodup).1
    by_cases hv : node = v
    · subst v; simpa [Indexing.get_set_self, path] using hn
    · simpa [Indexing.get_set_of_ne _ _ hv, path, Ne.symm hv] using hs.onStack_iff v
  done_iff v := by
    by_cases hv : node = v
    · subst v; simp [Indexing.get_set_self]
    · simpa [Indexing.get_set_of_ne _ _ hv, Ne.symm hv] using hs.done_iff v
  path_nodup := (List.nodup_cons.mp hs.path_nodup).2
  order_nodup := by
    have ht : marks.get node = .onStack := (hs.onStack_iff node).mpr (by simp [path])
    refine List.nodup_cons.mpr ⟨fun h => ?_, hs.order_nodup⟩
    simp [(hs.done_iff node).mpr h] at ht
  linked := (List.isChain_cons.mp hs.linked).2
  untried frame hf := hs.untried frame (List.mem_cons_of_mem _ hf)
  forward := ⟨he, hs.forward⟩

theorem Coherent.drop {adjacency : Adjacency n} {roots : List (Fin n)} {marks : Vector Mark n}
    {node child : Fin n} {edges : List (Fin n)} {below : List (SearchFrame n)} {order : List (Fin n)}
    (hs : Coherent adjacency ⟨roots, marks, ⟨node, child :: edges⟩ :: below, order⟩) :
    Coherent adjacency ⟨roots, marks, ⟨node, edges⟩ :: below, order⟩ where
  onStack_iff := hs.onStack_iff
  done_iff := hs.done_iff
  path_nodup := hs.path_nodup
  order_nodup := hs.order_nodup
  linked := hs.linked
  untried frame hf v hv := by
    rcases List.mem_cons.mp hf with rfl | hf
    · exact hs.untried _ List.mem_cons_self v (List.mem_cons_of_mem _ hv)
    · exact hs.untried frame (List.mem_cons_of_mem _ hf) v hv
  forward := hs.forward

theorem Coherent.top_edge {adjacency : Adjacency n} {roots : List (Fin n)} {marks : Vector Mark n}
    {node child : Fin n} {edges : List (Fin n)} {below : List (SearchFrame n)} {order : List (Fin n)}
    (hs : Coherent adjacency ⟨roots, marks, ⟨node, child :: edges⟩ :: below, order⟩) :
    Edge adjacency node child :=
  hs.untried _ List.mem_cons_self child List.mem_cons_self

theorem Tried.drop {adjacency : Adjacency n} {settled settled' : List (Fin n)} {node child : Fin n}
    {edges : List (Fin n)} {below : List (SearchFrame n)}
    (h : Tried adjacency settled (⟨node, child :: edges⟩ :: below)) (hc : child ∈ settled')
    (hs : settled ⊆ settled') : Tried adjacency settled' (⟨node, edges⟩ :: below) := by
  refine ⟨fun v hv => ?_, h.2.mono (List.cons_subset_cons _ hs)⟩
  rcases h.1 v hv with hv | hv
  · rcases List.mem_cons.mp hv with rfl | hv
    · exact Or.inr hc
    · exact Or.inl hv
  · exact Or.inr (hs hv)

theorem set_ne_unvisited (marks : Vector Mark n) (node : Fin n) {mark : Mark} (hm : mark ≠ .unvisited)
    {v : Fin n} (h : marks.get v ≠ .unvisited) : (marks.set node.val mark node.isLt).get v ≠ .unvisited := by
  by_cases hv : node = v
  · subst v; rwa [Indexing.get_set_self]
  · rwa [Indexing.get_set_of_ne _ _ hv]

theorem covered_tail {root : Fin n} {roots : List (Fin n)} {marks marks' : Vector Mark n}
    (h : ∀ v, v ∈ root :: roots ∨ marks.get v ≠ .unvisited) (hroot : marks'.get root ≠ .unvisited)
    (hkeep : ∀ v, marks.get v ≠ .unvisited → marks'.get v ≠ .unvisited) (v : Fin n) :
    v ∈ roots ∨ marks'.get v ≠ .unvisited := by
  rcases h v with hv | hv
  · rcases List.mem_cons.mp hv with rfl | hv
    · exact Or.inr hroot
    · exact Or.inl hv
  · exact Or.inr (hkeep v hv)

theorem Invariant.step {adjacency : Adjacency n} {s s' : Search n} (hs : Invariant adjacency s)
    (h : s.step adjacency = .next s') : Invariant adjacency s' := by
  have hm := step_move adjacency s
  rw [h] at hm
  cases hm with
  | enterRoot root roots marks order hu =>
      have hc : Coherent adjacency ⟨roots, marks, [], order⟩ := { hs.toCoherent with }
      have hentered : (marks.set root.val .onStack root.isLt).get root ≠ .unvisited := by
        simp [Indexing.get_set_self]
      exact ⟨hc.enter hu (by simp [path]), ⟨fun v hv => Or.inl (List.mem_reverse.mpr hv), trivial⟩,
        covered_tail hs.covered hentered fun v hv => set_ne_unvisited marks root (by simp) hv⟩
  | passRoot root roots marks order hu =>
      exact ⟨{ hs.toCoherent with }, hs.tried, covered_tail hs.covered hu fun _ hv => hv⟩
  | leave roots marks node below order =>
      have he : ∀ v, Edge adjacency node v → v ∈ order := fun v hv => (hs.tried.1 v hv).resolve_left (by simp)
      exact ⟨hs.toCoherent.leave he, hs.tried.2,
        fun v => (hs.covered v).imp_right fun hv => set_ne_unvisited marks node (by simp) hv⟩
  | enterChild roots marks node child edges below order hu =>
      -- the child counts as settled for the nodes below it from now on
      have ht := hs.tried.drop List.mem_cons_self (List.subset_cons_self child order)
      exact ⟨hs.toCoherent.drop.enter hu (by simpa [path] using hs.top_edge),
        ⟨fun v hv => Or.inl (List.mem_reverse.mpr hv), ht⟩,
        fun v => (hs.covered v).imp_right fun hv => set_ne_unvisited marks child (by simp) hv⟩
  | passChild roots marks node child edges below order hd =>
      have ht := hs.tried.drop ((hs.done_iff child).mp hd) (List.Subset.refl order)
      exact ⟨hs.toCoherent.drop, ht, hs.covered⟩

/-- What the invariant gives at every end of the search holds of its result. -/
theorem run_induction {adjacency : Adjacency n} {P : SearchResult n → Prop}
    (hsorted : ∀ s order, Invariant adjacency s → s.step adjacency = .sorted order → P (.sorted order))
    (hcycle : ∀ s nodes, Invariant adjacency s → s.step adjacency = .cycle nodes → P (.cycle nodes))
    (s : Search n) (hs : Invariant adjacency s) : P (s.run adjacency) := by
  induction s using run.induct adjacency with
  | case1 s s' h ih =>
      rw [run, h]
      exact ih (hs.step h)
  | case2 s order h =>
      rw [run, h]
      exact hsorted s order hs h
  | case3 s nodes h =>
      rw [run, h]
      exact hcycle s nodes hs h

end Search

end FrameEngine.Graph
