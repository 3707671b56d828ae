import FrameEngine.Proofs.Graph.SolveOutcome

namespace FrameEngine.Graph

namespace Search

variable {n : Nat} {adjacency : Adjacency n} {s : Search n}

inductive Reached (adjacency : Adjacency n) : Search n → Prop
  | start : Reached adjacency (start n)
  | next {s s' : Search n} (h : Reached adjacency s) (hstep : s.step adjacency = .next s') : Reached adjacency s'

theorem Reached.invariant (h : Reached adjacency s) : Invariant adjacency s := by
  induction h with
  | start => exact invariant_start adjacency
  | next _ hstep ih => exact ih.step hstep

/-- A search that ends with a cycle does so in a state that it reaches. -/
theorem Reached.exists_closing (h : Reached adjacency s) {nodes : List (Fin n)}
    (hrun : s.run adjacency = .cycle nodes) : ∃ s', Reached adjacency s' ∧ s'.step adjacency = .cycle nodes := by
  induction s using run.induct adjacency with
  | case1 s s' hstep ih =>
      rw [run, hstep] at hrun
      exact ih (h.next hstep) hrun
  | case2 s order hstep =>
      rw [run, hstep] at hrun
      cases hrun
  | case3 s nodes' hstep =>
      rw [run, hstep] at hrun
      cases hrun
      exact ⟨s, h, hstep⟩

/-- The edge that closes a cycle leads from the top of the stack to a node that is found on it, and the cycle is the
stack from there up. -/
theorem Reached.closing (h : Reached adjacency s) {nodes : List (Fin n)} (hstep : s.step adjacency = .cycle nodes) :
    ∃ top target edges below position, s.stack = ⟨top, target :: edges⟩ :: below ∧
      s.path.reverse.idxOf? target = some position ∧ nodes = s.path.reverse.drop position ++ [target] := by
  have hcoherent := h.invariant.toCoherent
  have hm := step_move adjacency s
  rw [hstep] at hm
  cases hm with
  | close roots marks node child edges below order hmark =>
      have hmem := (hcoherent.onStack_iff child).mp hmark
      obtain ⟨position, hposition⟩ :=
        Option.ne_none_iff_exists'.mp fun hnone => List.idxOf?_eq_none_iff.mp hnone (List.mem_reverse.mpr hmem)
      refine ⟨node, child, edges, below, position, rfl, hposition, ?_⟩
      rw [path] at hposition ⊢
      rw [cycleThrough, hposition, Option.getD_some]

end Search

namespace PassGraph

variable {ω : Type} {g : PassGraph ω}

theorem cycle_of_solve {names : List String} (h : g.solve = .error (.circularDependency names)) :
    ∃ nodes : List (Fin g.passes.size), topologicalOrder g.adjacency = .cycle nodes ∧
      names = nodes.map fun i => (g.passAt i).name := by
  cases hc : conflict? (g.passes.toList.map (·.io)) with
  | some found =>
      obtain ⟨image, first, second⟩ := found
      rw [solve_of_conflict hc] at h
      cases h
  | none =>
      cases ho : topologicalOrder g.adjacency with
      | sorted order =>
          rw [solve_of_sorted hc ho] at h
          cases h
      | cycle nodes =>
          rw [solve_of_cycle hc ho] at h
          cases h
          exact ⟨nodes, rfl, rfl⟩

/-- A pass does not feed itself, so a cycle has two passes at least. -/
theorem exists_passes_of_isCycle {nodes : List (Fin g.passes.size)} (h : IsCycle g.adjacency nodes) :
    ∃ first rest, nodes = first :: (rest ++ [first]) ∧ rest ≠ [] ∧ (first :: rest).Nodup ∧
      (first :: (rest ++ [first])).IsChain g.Feeds := by
  obtain ⟨first, rest, rfl, hnodup⟩ := h.closed
  have hlinked := h.linked
  rw [edge_adjacency_eq] at hlinked
  refine ⟨first, rest, rfl, ?_, hnodup, hlinked⟩
  rintro rfl
  exact (List.isChain_pair.mp hlinked).1 rfl

/-- The error of a graph that is refused for a cycle names two passes or more, each once and then the first of them
again, and each feeds the next. The search ends with them: whenever it comes to an edge back, its target is found on the
stack, and the cycle is the stack from the target up. -/
theorem solve_reports_cycle (g : PassGraph ω) :
    (∀ names, g.solve = .error (.circularDependency names) →
      ∃ s first rest, Search.Reached g.adjacency s ∧ s.step g.adjacency = .cycle (first :: (rest ++ [first])) ∧
        rest ≠ [] ∧ (first :: rest).Nodup ∧ (first :: (rest ++ [first])).IsChain g.Feeds ∧
        names = (first :: (rest ++ [first])).map fun i => (g.passAt i).name) ∧
    ∀ s nodes, Search.Reached g.adjacency s → s.step g.adjacency = .cycle nodes →
      ∃ top target edges below position, s.stack = ⟨top, target :: edges⟩ :: below ∧
        s.path.reverse.idxOf? target = some position ∧ nodes = s.path.reverse.drop position ++ [target] := by
  refine ⟨fun names h => ?_, fun s nodes h hstep => h.closing hstep⟩
  obtain ⟨nodes, hcycle, rfl⟩ := cycle_of_solve h
  obtain ⟨s, hs, hstep⟩ := Search.Reached.start.exists_closing hcycle
  obtain ⟨first, rest, rfl, htwo, hnodup, hlinked⟩ := exists_passes_of_isCycle (isCycle_topologicalOrder hcycle)
  exact ⟨s, first, rest, hs, hstep, htwo, hnodup, hlinked, rfl⟩

def mixLoop : PassGraph Unit where
  passes := #[
    ⟨"view", ⟨[.fragmentSampled ⟨1⟩], []⟩, ()⟩,
    ⟨"mix", ⟨[.computeSampled ⟨2⟩], [.computeStorageWrite ⟨0⟩]⟩, ()⟩,
    ⟨"shade", ⟨[.computeSampled ⟨0⟩, .computeSampled ⟨1⟩], [.computeStorageWrite ⟨1⟩]⟩, ()⟩,
    ⟨"blur", ⟨[.computeSampled ⟨1⟩], [.computeStorageWrite ⟨2⟩]⟩, ()⟩]

theorem solve_reports_cycle_mixLoop :
    mixLoop.solve = .error (.circularDependency ["blur", "mix", "shade", "blur"]) ∧
      ∃ first rest, rest ≠ [] ∧ (first :: rest).Nodup ∧ (first :: (rest ++ [first])).IsChain mixLoop.Feeds ∧
        ["blur", "mix", "shade", "blur"] = (first :: (rest ++ [first])).map fun i => (mixLoop.passAt i).name := by
  have hsolve : mixLoop.solve = .error (.circularDependency ["blur", "mix", "shade", "blur"]) := by
    with_unfolding_all rfl
  obtain ⟨_, first, rest, _, _, htwo, hnodup, hlinked, hnames⟩ := (solve_reports_cycle mixLoop).1 _ hsolve
  exact ⟨hsolve, first, rest, htwo, hnodup, hlinked, hnames⟩

end PassGraph

end FrameEngine.Graph
