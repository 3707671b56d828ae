import FrameEngine.Proofs.Graph.Conflicts

namespace FrameEngine.Graph.PassGraph

open Relation

variable {ω : Type}

theorem nameAt_fin (g : PassGraph ω) (i : Fin g.passes.size) : g.nameAt i = (g.passAt i).name := by
  simp [nameAt, passAt]

theorem solve_of_conflict {g : PassGraph ω} {image : ImageHandle} {first second : Nat}
    (h : conflict? (g.passes.toList.map (·.io)) = some (image, first, second)) :
    g.solve = .error (.multipleWriters image (g.nameAt first) (g.nameAt second)) := by
  simp [solve, order, h, bind, Except.bind]

theorem solve_of_cycle {g : PassGraph ω} {nodes : List (Fin g.passes.size)}
    (hc : conflict? (g.passes.toList.map (·.io)) = none) (h : topologicalOrder g.adjacency = .cycle nodes) :
    g.solve = .error (.circularDependency (nodes.map fun node => (g.passAt node).name)) := by
  simp [solve, order, passAt, hc, h, bind, Except.bind]

theorem solve_of_sorted {g : PassGraph ω} {order : List (Fin g.passes.size)}
    (hc : conflict? (g.passes.toList.map (·.io)) = none) (h : topologicalOrder g.adjacency = .sorted order) :
    g.solve = .ok (order.map fun i : Fin g.passes.size => g.idAt i) := by
  simp [solve, PassGraph.order, hc, h, bind, Except.bind, pure, Except.pure]

inductive Outcome (g : PassGraph ω) : Except GraphError (List PassId) → Prop
  | conflict (image) (first second) (h : g.FirstConflict image first second) :
      Outcome g (.error (.multipleWriters image (g.passAt first).name (g.passAt second).name))
  | cyclic (names) (hw : g.SingleWriter) (hc : ∃ i, TransGen g.Feeds i i) :
      Outcome g (.error (.circularDependency names))
  | solved (ids) (hw : g.SingleWriter) (hc : ∀ i, ¬ TransGen g.Feeds i i) : Outcome g (.ok ids)

theorem solve_has_outcome (g : PassGraph ω) : g.Outcome g.solve := by
  cases hc : conflict? (g.passes.toList.map (·.io)) with
  | some found =>
      obtain ⟨image, a, b⟩ := found
      obtain ⟨first, second, hfirst, rfl, rfl⟩ := (g.firstConflict_iff image a b).mp hc
      rw [solve_of_conflict hc, nameAt_fin, nameAt_fin]
      exact .conflict image first second hfirst
  | none =>
      have hw := g.singleWriter_iff.mp hc
      cases ho : topologicalOrder g.adjacency with
      | cycle nodes =>
          rw [solve_of_cycle hc ho]
          have ht := (isCycle_topologicalOrder ho).transGen
          rw [edge_adjacency_eq] at ht
          exact .cyclic _ hw ht
      | sorted order =>
          rw [solve_of_sorted hc ho]
          have ht := (isTopological_topologicalOrder ho).acyclic
          rw [edge_adjacency_eq] at ht
          exact .solved _ hw ht

theorem FirstConflict.not_singleWriter {g : PassGraph ω} {image : ImageHandle} {first second : Fin g.passes.size}
    (h : g.FirstConflict image first second) : ¬ g.SingleWriter := by
  obtain ⟨before, use, after, hsplit, huse, _⟩ := h.scanned
  have hw : g.Writes second image := ⟨use, hsplit ▸ by simp, huse⟩
  exact fun hs => Nat.ne_of_lt h.earlier (congrArg Fin.val (hs first second image h.writes hw))

theorem not_singleWriter_iff (g : PassGraph ω) :
    ¬ g.SingleWriter ↔ ∃ i j image, i ≠ j ∧ g.Writes i image ∧ g.Writes j image := by
  simp only [SingleWriter, not_forall]
  constructor
  · rintro ⟨i, j, image, hi, hj, hij⟩
    exact ⟨i, j, image, hij, hi, hj⟩
  · rintro ⟨i, j, image, hij, hi, hj⟩
    exact ⟨i, j, image, hi, hj, hij⟩

theorem exists_other_of_cycle {g : PassGraph ω} {i : Fin g.passes.size} (h : TransGen g.Feeds i i) :
    ∃ j, j ≠ i ∧ TransGen g.Feeds i j ∧ TransGen g.Feeds j i := by
  obtain ⟨j, hij, hji⟩ := TransGen.head'_iff.mp h
  refine ⟨j, Ne.symm hij.1, .single hij, ?_⟩
  exact (reflTransGen_iff_eq_or_transGen.mp hji).resolve_left hij.1

theorem solve_multipleWriters_iff (g : PassGraph ω) (image : ImageHandle) (a b : String) :
    g.solve = .error (.multipleWriters image a b) ↔
      ∃ first second, g.FirstConflict image first second ∧
        a = (g.passAt first).name ∧ b = (g.passAt second).name := by
  constructor
  · intro h
    have ho := g.solve_has_outcome
    rw [h] at ho
    cases ho with
    | conflict image first second hc => exact ⟨first, second, hc, rfl, rfl⟩
  · rintro ⟨first, second, hc, rfl, rfl⟩
    rw [solve_of_conflict ((g.firstConflict_iff image first second).mpr ⟨first, second, hc, rfl, rfl⟩),
      nameAt_fin, nameAt_fin]

theorem solve_refuses_writers_iff (g : PassGraph ω) :
    (∃ image a b, g.solve = .error (.multipleWriters image a b)) ↔ ¬ g.SingleWriter := by
  have ho := g.solve_has_outcome
  generalize g.solve = result at ho
  cases ho with
  | conflict image first second h => simp [h.not_singleWriter]
  | cyclic names hw hc => simp [hw]
  | solved ids hw hc => simp [hw]

theorem solve_refuses_cycle_iff (g : PassGraph ω) :
    (∃ names, g.solve = .error (.circularDependency names)) ↔
      g.SingleWriter ∧ ∃ i, TransGen g.Feeds i i := by
  have ho := g.solve_has_outcome
  generalize g.solve = result at ho
  cases ho with
  | conflict image first second h => simp [h.not_singleWriter]
  | cyclic names hw hc => simpa [hw] using hc
  | solved ids hw hc => simp [hc]

theorem solve_ok_iff (g : PassGraph ω) :
    (∃ ids, g.solve = .ok ids) ↔ g.SingleWriter ∧ ∀ i, ¬ TransGen g.Feeds i i := by
  have ho := g.solve_has_outcome
  generalize g.solve = result at ho
  cases ho with
  | conflict image first second h => simp [h.not_singleWriter]
  | cyclic names hw hc => simpa [hw] using hc
  | solved ids hw hc => simp [hw, hc]

/-- A graph is refused for the first conflict met if two of its passes write one image, else for a cycle
if passes feed each other around one, and it is solved otherwise. Every cycle leads through two passes,
so a pass that reads its own output is none. -/
theorem solve_outcome (g : PassGraph ω) :
    (∀ image a b, g.solve = .error (.multipleWriters image a b) ↔
      ∃ first second, g.FirstConflict image first second ∧
        a = (g.passAt first).name ∧ b = (g.passAt second).name) ∧
    ((∃ image a b, g.solve = .error (.multipleWriters image a b)) ↔
      ∃ i j image, i ≠ j ∧ g.Writes i image ∧ g.Writes j image) ∧
    ((∃ names, g.solve = .error (.circularDependency names)) ↔
      g.SingleWriter ∧ ∃ i, TransGen g.Feeds i i) ∧
    ((∃ ids, g.solve = .ok ids) ↔ g.SingleWriter ∧ ∀ i, ¬ TransGen g.Feeds i i) ∧
    ∀ i, TransGen g.Feeds i i → ∃ j, j ≠ i ∧ TransGen g.Feeds i j ∧ TransGen g.Feeds j i :=
  ⟨g.solve_multipleWriters_iff, g.solve_refuses_writers_iff.trans g.not_singleWriter_iff,
    g.solve_refuses_cycle_iff, g.solve_ok_iff, fun _ h => exists_other_of_cycle h⟩

end FrameEngine.Graph.PassGraph
