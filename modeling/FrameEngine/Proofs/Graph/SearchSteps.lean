import FrameEngine.Proofs.Graph.ReportedCycle
import Mathlib.Data.List.OfFn

namespace FrameEngine.Graph

variable {n : Nat}

section Numbers

structure NumberedSearch where
  /-- Roots below this one have yet to be tried. -/
  untried : Nat
  marks : List Mark
  /-- Nodes with the number of their edges that were tried; the node that was entered last comes first. -/
  stack : List (Nat × Nat)
  order : List Nat

inductive NumberedStep
  | next (search : NumberedSearch)
  | sorted (order : List Nat)
  | cycle (nodes : List Nat)

namespace NumberedSearch

def start (n : Nat) : NumberedSearch := ⟨n, List.replicate n .unvisited, [], []⟩

def mark? (s : NumberedSearch) (node : Nat) (mark : Mark) : Option NumberedSearch :=
  if node < s.marks.length then some { s with marks := s.marks.set node mark } else none

def enter? (s : NumberedSearch) (node : Nat) : Option NumberedSearch :=
  { s with stack := (node, 0) :: s.stack }.mark? node .onStack

def cycleThrough (stack : List (Nat × Nat)) (target : Nat) : List Nat :=
  let nodes := (stack.map (·.1)).reverse
  nodes.drop ((nodes.idxOf? target).getD 0) ++ [target]

def step? (edges : List (List Nat)) (s : NumberedSearch) : Option NumberedStep :=
  match s.stack with
  | [] => match s.untried with
      | 0 => some (.sorted s.order)
      | root + 1 => match s.marks[root]? with
          | none => none
          | some .unvisited => ({ s with untried := root }.enter? root).map .next
          | some _ => some (.next { s with untried := root })
  | (node, tried) :: below => match edges[node]? with
      | none => none
      | some children => match children.reverse[tried]? with
          | none => ({ s with stack := below, order := node :: s.order }.mark? node .done).map .next
          | some child => match s.marks[child]? with
              | none => none
              | some .unvisited => ({ s with stack := (node, tried + 1) :: below }.enter? child).map .next
              | some .onStack => some (.cycle (cycleThrough s.stack child))
              | some .done => some (.next { s with stack := (node, tried + 1) :: below })

def after? (edges : List (List Nat)) : Nat → Option NumberedSearch
  | 0 => some (start edges.length)
  | k + 1 => match (after? edges k).bind (step? edges) with
      | some (.next s) => some s
      | _ => none

end NumberedSearch

def Adjacency.numbers (adjacency : Adjacency n) : List (List Nat) := adjacency.toList.map (·.map Fin.val)

def Search.numbered (adjacency : Adjacency n) (s : Search n) : NumberedSearch where
  untried := s.roots.length
  marks := s.marks.toList
  stack := s.stack.map fun frame => (frame.node.val, (adjacency.get frame.node).length - frame.edges.length)
  order := s.order.map Fin.val

def SearchStep.numbered (adjacency : Adjacency n) : SearchStep n → NumberedStep
  | .next s => .next (s.numbered adjacency)
  | .sorted order => .sorted (order.map Fin.val)
  | .cycle nodes => .cycle (nodes.map Fin.val)

/-- Edges that lead to numbers in range are those of a graph. -/
theorem exists_numbers_eq (edges : List (List Nat)) (hvalid : ∀ row ∈ edges, ∀ j ∈ row, j < edges.length) :
    ∃ adjacency : Adjacency edges.length, adjacency.numbers = edges := by
  have hrow (i : Fin edges.length) : ∀ j ∈ edges.get i, j < edges.length := hvalid _ (List.get_mem edges i)
  refine ⟨Vector.ofFn fun i => (edges.get i).pmap Fin.mk (hrow i), ?_⟩
  have hval (i : Fin edges.length) : ((edges.get i).pmap Fin.mk (hrow i)).map Fin.val = edges.get i := by
    rw [List.map_pmap, List.pmap_eq_map, List.map_id']
  rw [Adjacency.numbers, Vector.toList_ofFn, List.map_ofFn]
  calc List.ofFn (List.map Fin.val ∘ fun i => (edges.get i).pmap Fin.mk (hrow i))
      = List.ofFn edges.get := congrArg List.ofFn (funext hval)
    _ = edges := List.ofFn_get edges

end Numbers

def SearchStep.result? : SearchStep n → Option (SearchResult n)
  | .next _ => none
  | .sorted order => some (.sorted order)
  | .cycle nodes => some (.cycle nodes)

namespace Search

section Lockstep

variable {adjacency : Adjacency n} {s s' : Search n}

/-- What numbers cannot tell of a state is told by the numbers: which roots are left, and which edges. -/
structure Aligned (adjacency : Adjacency n) (s : Search n) : Prop where
  roots : s.roots.map Fin.val = (List.range s.roots.length).reverse
  edges : ∀ frame ∈ s.stack, frame.edges <:+ (adjacency.get frame.node).reverse

theorem val_root {root : Fin n} {roots : List (Fin n)}
    (h : (root :: roots).map Fin.val = (List.range (root :: roots).length).reverse) :
    root.val = roots.length ∧ roots.map Fin.val = (List.range roots.length).reverse := by
  rw [List.length_cons, List.range_succ, List.reverse_concat] at h
  exact List.cons.inj h

theorem aligned_start (adjacency : Adjacency n) : Aligned adjacency (start n) where
  roots := by
    rw [start, List.map_reverse, List.map_coe_finRange_eq_range, List.length_reverse, List.length_finRange]
  edges _ hf := by cases hf

theorem Aligned.enter (h : Aligned adjacency s) (node : Fin n) : Aligned adjacency (s.enter adjacency node) where
  roots := h.roots
  edges frame hf := by
    rcases List.mem_cons.mp hf with rfl | hf
    · exact List.suffix_refl _
    · exact h.edges frame hf

theorem Aligned.drop {roots : List (Fin n)} {marks : Vector Mark n} {node child : Fin n} {edges : List (Fin n)}
    {below : List (SearchFrame n)} {order : List (Fin n)}
    (h : Aligned adjacency ⟨roots, marks, ⟨node, child :: edges⟩ :: below, order⟩) :
    Aligned adjacency ⟨roots, marks, ⟨node, edges⟩ :: below, order⟩ where
  roots := h.roots
  edges frame hf := by
    rcases List.mem_cons.mp hf with rfl | hf
    · exact (List.suffix_cons child edges).trans (h.edges _ List.mem_cons_self)
    · exact h.edges frame (List.mem_cons_of_mem _ hf)

theorem Aligned.step (h : Aligned adjacency s) (hstep : s.step adjacency = .next s') : Aligned adjacency s' := by
  have hm := step_move adjacency s
  rw [hstep] at hm
  cases hm with
  | enterRoot root roots marks order =>
      have hrest : Aligned adjacency ⟨roots, marks, [], order⟩ := ⟨(val_root h.roots).2, h.edges⟩
      exact hrest.enter root
  | passRoot => exact ⟨(val_root h.roots).2, h.edges⟩
  | leave => exact ⟨h.roots, fun frame hf => h.edges frame (List.mem_cons_of_mem _ hf)⟩
  | enterChild roots marks node child => exact h.drop.enter child
  | passChild => exact h.drop

theorem getElem?_numbers (adjacency : Adjacency n) (node : Fin n) :
    adjacency.numbers[node.val]? = some ((adjacency.get node).map Fin.val) := by
  rw [Adjacency.numbers, List.getElem?_map, Vector.getElem?_toList, Vector.getElem?_eq_getElem node.isLt]
  rfl

theorem getElem?_marks (marks : Vector Mark n) (node : Fin n) : marks.toList[node.val]? = some (marks.get node) := by
  rw [Vector.getElem?_toList, Vector.getElem?_eq_getElem node.isLt]
  rfl

/-- The first edge that was not tried is at the place that the number of those tried says. -/
theorem getElem?_tried {node : Fin n} {edges : List (Fin n)} (h : edges <:+ (adjacency.get node).reverse) :
    ((adjacency.get node).map Fin.val).reverse[(adjacency.get node).length - edges.length]? =
      edges.head?.map Fin.val := by
  obtain ⟨tried, htried⟩ := h
  have hlength : (adjacency.get node).length = tried.length + edges.length := by
    rw [← List.length_reverse, ← htried, List.length_append]
  rw [← List.map_reverse, ← htried, hlength, Nat.add_sub_cancel, List.getElem?_map,
    List.getElem?_append_right (Nat.le_refl _), Nat.sub_self, List.head?_eq_getElem?]

theorem tried_succ {node child : Fin n} {edges : List (Fin n)} (h : child :: edges <:+ (adjacency.get node).reverse) :
    (adjacency.get node).length - (child :: edges).length + 1 = (adjacency.get node).length - edges.length := by
  have hlength := h.length_le
  rw [List.length_reverse, List.length_cons] at hlength
  rw [List.length_cons]
  omega

theorem idxOf?_map_val (nodes : List (Fin n)) (target : Fin n) :
    (nodes.map Fin.val).idxOf? target.val = nodes.idxOf? target := by
  have hsame : (fun node : Fin n => node.val == target.val) = fun node => node == target := by
    funext node
    rw [Bool.eq_iff_iff, beq_iff_eq, beq_iff_eq, Fin.ext_iff]
  rw [List.idxOf?, List.idxOf?, List.findIdx?_map, ← hsame]
  rfl

theorem map_val_cycleThrough (adjacency : Adjacency n) (stack : List (SearchFrame n)) (target : Fin n) :
    (cycleThrough stack target).map Fin.val =
      NumberedSearch.cycleThrough
        (stack.map fun frame => (frame.node.val, (adjacency.get frame.node).length - frame.edges.length))
        target.val := by
  have hnodes : ((stack.map fun frame => (frame.node.val,
      (adjacency.get frame.node).length - frame.edges.length)).map (·.1)).reverse =
        ((stack.map (·.node)).reverse).map Fin.val := by
    rw [List.map_map, List.map_reverse, List.map_map]
    rfl
  rw [cycleThrough, NumberedSearch.cycleThrough, hnodes, idxOf?_map_val, List.map_append, List.map_drop]
  rfl

theorem mark?_numbered (adjacency : Adjacency n) (s : Search n) (node : Fin n) (mark : Mark) :
    (s.numbered adjacency).mark? node.val mark =
      some (({ s with marks := s.marks.set node.val mark node.isLt } : Search n).numbered adjacency) := by
  have hlt : node.val < (s.numbered adjacency).marks.length := by
    rw [numbered, Vector.length_toList]
    exact node.isLt
  rw [NumberedSearch.mark?, if_pos hlt, numbered, numbered]
  simp only [Vector.toList_set]

theorem enter?_numbered (adjacency : Adjacency n) (s : Search n) (node : Fin n) :
    (s.numbered adjacency).enter? node.val = some ((s.enter adjacency node).numbered adjacency) := by
  have hzero : (adjacency.get node).length - (adjacency.get node).reverse.length = 0 := by
    rw [List.length_reverse, Nat.sub_self]
  have hpush : { s.numbered adjacency with stack := (node.val, 0) :: (s.numbered adjacency).stack } =
      ({ s with stack := ⟨node, (adjacency.get node).reverse⟩ :: s.stack } : Search n).numbered adjacency := by
    rw [numbered, numbered, List.map_cons, hzero]
  rw [NumberedSearch.enter?, hpush, mark?_numbered]
  rfl

/-- The search on plain numbers does the same step, so it finds all numbers that it looks for. -/
theorem step?_numbered (h : Aligned adjacency s) :
    NumberedSearch.step? adjacency.numbers (s.numbered adjacency) = some ((s.step adjacency).numbered adjacency) := by
  have hm := step_move adjacency s
  generalize hstep : s.step adjacency = result at hm
  cases hm with
  | sorted marks order => rfl
  | enterRoot root roots marks order hu =>
      -- roots go down to zero, so the number of those left is the next one
      have hroot := (val_root h.roots).1
      have hmark : marks.toList[roots.length]? = some .unvisited := by rw [← hroot, getElem?_marks, hu]
      have henter := enter?_numbered adjacency ⟨roots, marks, [], order⟩ root
      rw [hroot] at henter
      simp only [NumberedSearch.step?, numbered, List.map_nil, List.length_cons, hmark]
      exact congrArg (Option.map NumberedStep.next) henter
  | passRoot root roots marks order hu =>
      have hroot := (val_root h.roots).1
      have hmark : marks.toList[roots.length]? = some (marks.get root) := by rw [← hroot, getElem?_marks]
      simp only [NumberedSearch.step?, numbered, List.map_nil, List.length_cons, hmark]
      cases hseen : marks.get root with
      | unvisited => exact absurd hseen hu
      | onStack | done => rfl
  | leave roots marks node below order =>
      have htried := getElem?_tried (h.edges _ List.mem_cons_self)
      have hdone := mark?_numbered adjacency ⟨roots, marks, below, node :: order⟩ node .done
      simp only [NumberedSearch.step?, numbered, List.map_cons, getElem?_numbers, htried, List.head?_nil,
        Option.map_none]
      exact congrArg (Option.map NumberedStep.next) hdone
  | enterChild roots marks node child edges below order hu =>
      have hedges := h.edges _ List.mem_cons_self
      have htried := getElem?_tried hedges
      have henter := enter?_numbered adjacency ⟨roots, marks, ⟨node, edges⟩ :: below, order⟩ child
      simp only [NumberedSearch.step?, numbered, List.map_cons, getElem?_numbers, htried, List.head?_cons,
        Option.map_some, getElem?_marks, hu, tried_succ hedges]
      exact congrArg (Option.map NumberedStep.next) henter
  | passChild roots marks node child edges below order hd =>
      have hedges := h.edges _ List.mem_cons_self
      have htried := getElem?_tried hedges
      simp only [NumberedSearch.step?, numbered, List.map_cons, getElem?_numbers, htried, List.head?_cons,
        Option.map_some, getElem?_marks, hd, tried_succ hedges]
      rfl
  | close roots marks node child edges below order ho =>
      have htried := getElem?_tried (h.edges _ List.mem_cons_self)
      have hcycle := map_val_cycleThrough adjacency (⟨node, child :: edges⟩ :: below) child
      rw [SearchStep.numbered, hcycle]
      simp only [NumberedSearch.step?, numbered, List.map_cons, getElem?_numbers, htried, List.head?_cons,
        Option.map_some, getElem?_marks, ho]

end Lockstep

section Walks

variable {adjacency : Adjacency n} {s s' : Search n} {k : Nat} {pushed : List (Fin n)}

def grown (s s' : Search n) : List (Fin n) := s'.path.take (s'.path.length - s.path.length)

/-- The states of a search, with the number of steps that lead there and the nodes that were put on the stack on the
way, the latest first. -/
inductive Walk (adjacency : Adjacency n) : Nat → List (Fin n) → Search n → Prop
  | start : Walk adjacency 0 [] (start n)
  | next {k : Nat} {pushed : List (Fin n)} {s s' : Search n} (h : Walk adjacency k pushed s)
      (hstep : s.step adjacency = .next s') :
      Walk adjacency (k + 1) (grown s s' ++ pushed) s'

theorem Walk.reached (h : Walk adjacency k pushed s) : Reached adjacency s := by
  induction h with
  | start => exact .start
  | next _ hstep ih => exact ih.next hstep

theorem Walk.aligned (h : Walk adjacency k pushed s) : Aligned adjacency s := by
  induction h with
  | start => exact aligned_start adjacency
  | next _ hstep ih => exact ih.step hstep

/-- The stack grows by a node that was not visited before, or it does not grow and no other node is visited. -/
theorem grown_step (hs : Coherent adjacency s) (hstep : s.step adjacency = .next s') :
    (∃ node, grown s s' = [node] ∧ s.marks.get node = .unvisited ∧
        s'.marks = s.marks.set node.val .onStack node.isLt) ∨
      grown s s' = [] ∧ ∀ v, s'.marks.get v = .unvisited ↔ s.marks.get v = .unvisited := by
  have hm := step_move adjacency s
  rw [hstep] at hm
  cases hm with
  | enterRoot root roots marks order hu => exact .inl ⟨root, rfl, hu, rfl⟩
  | passRoot => exact .inr ⟨rfl, fun v => Iff.rfl⟩
  | leave roots marks node below order =>
      have hnode : marks.get node = .onStack := (hs.onStack_iff node).mpr (by simp [path])
      refine .inr ⟨by simp [grown, path], fun v => ?_⟩
      by_cases hv : node = v
      · subst hv
        simp [Indexing.get_set_self, hnode]
      · rw [Indexing.get_set_of_ne _ _ hv]
  | enterChild roots marks node child edges below order hu =>
      exact .inl ⟨child, by simp [grown, enter, path], hu, rfl⟩
  | passChild => exact .inr ⟨by simp [grown, path], fun v => Iff.rfl⟩

/-- The nodes that were put on the stack are those that were visited, and each was put there once. -/
theorem Walk.pushed_once (h : Walk adjacency k pushed s) :
    pushed.Nodup ∧ ∀ v, v ∈ pushed ↔ s.marks.get v ≠ .unvisited := by
  induction h with
  | start => exact ⟨List.nodup_nil, fun v => by simp [Search.start, Vector.get]⟩
  | @next k pushed s s' h hstep ih =>
      obtain ⟨hnodup, hvisited⟩ := ih
      obtain ⟨node, hgrown, hu, hmarks⟩ | ⟨hgrown, hkept⟩ := grown_step h.reached.invariant.toCoherent hstep
      · rw [hgrown, List.singleton_append]
        refine ⟨List.nodup_cons.mpr ⟨fun hmem => (hvisited node).mp hmem hu, hnodup⟩, fun v => ?_⟩
        rw [List.mem_cons, hvisited, hmarks]
        by_cases hv : node = v
        · subst hv
          simp [Indexing.get_set_self]
        · rw [Indexing.get_set_of_ne _ _ hv]
          simp [Ne.symm hv]
      · rw [hgrown, List.nil_append]
        exact ⟨hnodup, fun v => (hvisited v).trans (not_congr (hkept v).symm)⟩

theorem Walk.steps_add_potential (h : Walk adjacency k pushed s) :
    k + s.potential adjacency ≤ (Search.start n).potential adjacency := by
  induction h with
  | start => exact Nat.le_of_eq (Nat.zero_add _)
  | next _ hstep ih =>
      have hless := potential_step hstep
      omega

theorem total_map_add (f : Fin n → Nat) (c : Nat) (nodes : List (Fin n)) :
    total (nodes.map fun v => f v + c) = total (nodes.map f) + c * nodes.length := by
  induction nodes with
  | nil => rfl
  | cons v nodes ih =>
      simp only [List.map_cons, total_cons, ih, List.length_cons, Nat.mul_succ]
      omega

theorem map_length_numbers (adjacency : Adjacency n) :
    adjacency.numbers.map List.length = (List.finRange n).map fun v => (adjacency.get v).length := by
  refine List.ext_getElem (by simp [Adjacency.numbers]) fun i h h' => ?_
  simp [Adjacency.numbers, Vector.get]

/-- Each node is a root once, and once entered it costs a step for each of its edges and another two. -/
theorem potential_start (adjacency : Adjacency n) :
    (start n).potential adjacency = 3 * n + total (adjacency.numbers.map List.length) := by
  have hcost : nodeCost adjacency (start n).marks = fun v => (adjacency.get v).length + 2 := by
    funext v
    simp [nodeCost, start, Vector.get]
  rw [potential, hcost, total_map_add, map_length_numbers, start, List.length_reverse, List.length_finRange,
    List.map_nil, total_nil]
  omega

/-- A search on plain numbers has come as far after as many steps. -/
theorem Walk.after?_numbers (h : Walk adjacency k pushed s) :
    NumberedSearch.after? adjacency.numbers k = some (s.numbered adjacency) := by
  induction h with
  | start =>
      have hlength : adjacency.numbers.length = n := by simp [Adjacency.numbers]
      rw [NumberedSearch.after?, hlength]
      simp [NumberedSearch.start, Search.start, numbered]
  | next h hstep ih =>
      rw [NumberedSearch.after?, ih, Option.bind_some, step?_numbered h.aligned, hstep]
      rfl

/-- From each of its states the search goes on to its result. -/
theorem Walk.exists_end (h : Walk adjacency k pushed s) :
    ∃ k' pushed' s', Walk adjacency k' pushed' s' ∧ (s'.step adjacency).result? = some (s.run adjacency) := by
  induction s using run.induct adjacency generalizing k pushed with
  | case1 s s' hstep ih =>
      rw [run, hstep]
      exact ih (h.next hstep)
  | case2 s order hstep | case3 s nodes hstep =>
      rw [run, hstep]
      exact ⟨k, pushed, s, h, by rw [hstep]; rfl⟩

theorem Forward.edge_mem {later earlier : List (Fin n)} {v w : Fin n}
    (h : Forward adjacency (later ++ v :: earlier)) (hw : Edge adjacency v w) : w ∈ earlier := by
  induction later with
  | nil => exact h.1 w hw
  | cons _ later ih => exact ih h.2

end Walks

end Search

/-- What holds of a search in each of its states. The nodes marked so are those on the stack, which are there once and
linked by edges, and those that are done, which are in the order once, with all that their edges lead to before them. -/
structure Search.Orderly (adjacency : Adjacency n) (s : Search n) : Prop where
  onStack_iff : ∀ v, s.marks.get v = .onStack ↔ v ∈ s.path
  path_nodup : s.path.Nodup
  linked : s.path.IsChain fun upper lower => Edge adjacency lower upper
  done_iff : ∀ v, s.marks.get v = .done ↔ v ∈ s.order
  order_nodup : s.order.Nodup
  before : ∀ later v earlier, s.order = later ++ v :: earlier →
    ∀ w, Edge adjacency v w → s.marks.get w = .done ∧ w ∈ earlier

theorem Search.Coherent.orderly {adjacency : Adjacency n} {s : Search n} (h : Coherent adjacency s) :
    Orderly adjacency s where
  onStack_iff := h.onStack_iff
  path_nodup := h.path_nodup
  linked := h.linked
  done_iff := h.done_iff
  order_nodup := h.order_nodup
  before later v earlier horder w hw := by
    have hforward : Forward adjacency (later ++ v :: earlier) := horder ▸ h.forward
    have hmem := hforward.edge_mem hw
    refine ⟨(h.done_iff w).mpr ?_, hmem⟩
    rw [horder]
    exact List.mem_append_right later (List.mem_cons_of_mem v hmem)

/-- Whatever edges there are between numbers in range, the search for an order ends. In each of its states it has taken
no more steps than nodes and edges allow, its marks are right, no node was put on the stack twice, and the search on
plain numbers is in the same state after as many steps and can take the next one: no number is out of range. -/
theorem search_steps (edges : List (List Nat)) (hvalid : ∀ row ∈ edges, ∀ j ∈ row, j < edges.length) :
    ∃ adjacency : Adjacency edges.length, adjacency.numbers = edges ∧
      (∃ k pushed s, Search.Walk adjacency k pushed s ∧
        (s.step adjacency).result? = some (topologicalOrder adjacency)) ∧
      ∀ k pushed s, Search.Walk adjacency k pushed s →
        k ≤ 3 * edges.length + total (edges.map List.length) ∧ s.Orderly adjacency ∧ pushed.Nodup ∧
          NumberedSearch.after? edges k = some (s.numbered adjacency) ∧
          NumberedSearch.step? edges (s.numbered adjacency) = some ((s.step adjacency).numbered adjacency) := by
  obtain ⟨adjacency, hnumbers⟩ := exists_numbers_eq edges hvalid
  refine ⟨adjacency, hnumbers, Search.Walk.start.exists_end, fun k pushed s h => ?_⟩
  have hsteps := h.steps_add_potential
  rw [Search.potential_start, hnumbers] at hsteps
  have hafter := h.after?_numbers
  have hnext := Search.step?_numbered h.aligned
  rw [hnumbers] at hafter hnext
  exact ⟨by omega, h.reached.invariant.toCoherent.orderly, h.pushed_once.1, hafter, hnext⟩

/-- Four nodes, the last of which two others lead to. -/
theorem search_steps_diamond :
    (∀ row ∈ [[1, 2], [3], [3], []], ∀ j ∈ row, j < [[1, 2], [3], [3], []].length) ∧
      ∃ adjacency : Adjacency 4, adjacency.numbers = [[1, 2], [3], [3], []] ∧
        ∀ k pushed s, Search.Walk adjacency k pushed s → k ≤ 16 ∧ s.Orderly adjacency ∧ pushed.Nodup := by
  refine ⟨by decide, ?_⟩
  obtain ⟨adjacency, hnumbers, -, hwalk⟩ := search_steps [[1, 2], [3], [3], []] (by decide)
  refine ⟨adjacency, hnumbers, fun k pushed s h => ?_⟩
  obtain ⟨hsteps, horderly, honce, -⟩ := hwalk k pushed s h
  exact ⟨hsteps, horderly, honce⟩

end FrameEngine.Graph
