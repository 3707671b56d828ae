import FrameEngine.Proofs.Graph.InsertionOrder

namespace FrameEngine.Graph.PassGraph

open Relation

variable {ω : Type}

def Independent (g : PassGraph ω) (i j : Fin g.passes.size) : Prop := ¬ g.LeadsTo i j ∧ ¬ g.LeadsTo j i

def Precedes (g : PassGraph ω) (i j : Fin g.passes.size) : Prop :=
  TransGen g.Feeds i j ∨ i < j ∧ g.Independent i j

/-- Independent passes of which the later one lies behind the earlier edges. -/
def Crossed (g : PassGraph ω) (i j : Fin g.passes.size) : Prop :=
  i < j ∧ g.Independent i j ∧ g.latestSource i = g.latestSource j ∧
    Search.MeetsFirst g.adjacency i j (g.latestSource i)

section Orders

variable {g : PassGraph ω} {order : List (Fin g.passes.size)} {i j : Fin g.passes.size}

theorem transGen_of_leadsTo (h : g.LeadsTo i j) (hne : i ≠ j) : TransGen g.Feeds i j :=
  (reflTransGen_iff_eq_or_transGen.mp h).resolve_left hne.symm

theorem precedes_total (hne : i ≠ j) : g.Precedes i j ∨ g.Precedes j i := by
  by_cases hij : g.LeadsTo i j
  · exact .inl (.inl (transGen_of_leadsTo hij hne))
  by_cases hji : g.LeadsTo j i
  · exact .inr (.inl (transGen_of_leadsTo hji hne.symm))
  rcases lt_or_gt_of_ne hne with hlt | hlt
  · exact .inl (.inr ⟨hlt, hij, hji⟩)
  · exact .inr (.inr ⟨hlt, hji, hij⟩)

theorem meetsFirst_of_idxOf_lt (h : g.order = .ok order) (hij : ¬ g.LeadsTo i j) (hlt : order.idxOf j < order.idxOf i) :
    Search.MeetsFirst g.adjacency i j (g.latestSource i) := by
  have hroots := Search.pairwise_root g.ascending_adjacency (sorted_of_order h)
  obtain ⟨root, hroot, hlast, hmeets⟩ :=
    Positions.rel_of_idxOf_lt hroots ((isSchedule_of_order h).complete i) hlt
  rw [reaches_adjacency] at hroot hlast hmeets
  have heq : g.latestSource i = root :=
    le_antisymm (hlast _ (.inr (g.latestSource_leadsTo i))) (le_latestSource hroot)
  rw [heq]
  exact hmeets hij

theorem idxOf_lt_of_meetsFirst (h : g.order = .ok order) (hsource : g.latestSource i = g.latestSource j)
    (hji : ¬ g.LeadsTo j i) (hmeets : Search.MeetsFirst g.adjacency i j (g.latestSource i)) :
    order.idxOf j < order.idxOf i := by
  have hne : i ≠ j := by
    rintro rfl
    exact hji .refl
  refine Nat.lt_of_le_of_ne (Nat.le_of_not_lt fun hlt => ?_) fun heq => ?_
  · have hback := meetsFirst_of_idxOf_lt h hji hlt
    rw [← hsource] at hback
    exact hmeets.asymm hback
  · exact hne ((List.idxOf_inj ((isSchedule_of_order h).complete j)).mp heq).symm

/-- A later pass that leads to `i` leads to `j` as well: otherwise it would have to come after `j`, and before `i`. -/
theorem leadsTo_of_later (htie : ∀ i, ¬ TransGen g.Precedes i i) (hij : i < j) (hind : g.Independent i j)
    {root : Fin g.passes.size} (hlater : j < root) (hroot : g.LeadsTo root i) : g.LeadsTo root j := by
  by_contra hno
  have hafter : g.Precedes j root := .inr ⟨hlater, fun h => hind.2 (h.trans hroot), hno⟩
  have hbefore : g.Precedes root i := .inl (transGen_of_leadsTo hroot (hij.trans hlater).ne')
  have hfirst : g.Precedes i j := .inr ⟨hij, hind⟩
  exact htie j (((TransGen.single hafter).tail hbefore).tail hfirst)

theorem latestSource_le_of_later (htie : ∀ i, ¬ TransGen g.Precedes i i) (hij : i < j) (hind : g.Independent i j) :
    g.latestSource i ≤ g.latestSource j := by
  by_contra hlt
  have hj : j ≤ g.latestSource j := le_latestSource .refl
  exact hlt (le_latestSource (leadsTo_of_later htie hij hind (hj.trans_lt (lt_of_not_ge hlt))
    (g.latestSource_leadsTo i)))

theorem idxOf_lt_iff_not_crossed (h : g.order = .ok order) (htie : ∀ i, ¬ TransGen g.Precedes i i) (hij : i < j)
    (hind : g.Independent i j) : order.idxOf i < order.idxOf j ↔ ¬ g.Crossed i j := by
  constructor
  · rintro hlt ⟨_, _, hsource, hmeets⟩
    exact Nat.lt_asymm hlt (idxOf_lt_of_meetsFirst h hsource hind.2 hmeets)
  · intro hcrossed
    by_contra hnot
    rcases (latestSource_le_of_later htie hij hind).lt_or_eq with hsource | hsource
    · exact hnot (idxOf_lt_of_latestSource h hsource)
    · have hne : order.idxOf j ≠ order.idxOf i :=
        fun heq => hij.ne' ((List.idxOf_inj ((isSchedule_of_order h).complete j)).mp heq)
      have hlt : order.idxOf j < order.idxOf i := Nat.lt_of_le_of_ne (Nat.le_of_not_lt hnot) hne
      exact hcrossed ⟨hij, hind, hsource, meetsFirst_of_idxOf_lt h hind.1 hlt⟩

theorem idxOf_lt_of_precedes (h : g.order = .ok order) (htie : ∀ i, ¬ TransGen g.Precedes i i)
    (hcrossed : ∀ i j, ¬ g.Crossed i j) (hij : g.Precedes i j) : order.idxOf i < order.idxOf j := by
  rcases hij with hij | ⟨hlt, hind⟩
  · exact rank_lt_of_transGen order.idxOf (isSchedule_of_order h).producers_first hij
  · exact (idxOf_lt_iff_not_crossed h htie hlt hind).mpr (hcrossed i j)

theorem not_transGen_precedes (rank : Fin g.passes.size → Nat) (hfeeds : ∀ i j, g.Feeds i j → rank i < rank j)
    (hind : ∀ i j, i < j → rank i < rank j ∨ g.Feeds j i ∨ ∃ k, g.Feeds j k ∧ g.Feeds k i) :
    ∀ i, ¬ TransGen g.Precedes i i := by
  refine not_transGen_of_rank rank fun i j hij => ?_
  rcases hij with hij | ⟨hlt, _, hji⟩
  · exact rank_lt_of_transGen rank hfeeds hij
  · rcases hind i j hlt with hrank | hf | ⟨k, hjk, hki⟩
    · exact hrank
    · exact absurd (.single hf) hji
    · exact absurd ((ReflTransGen.single hjk).tail hki) hji

end Orders

/-- Where independent passes can keep their order of insertion, the solved order keeps it but for crossed passes; and
if none are crossed, the solved order is the only one that keeps it. -/
theorem solve_keeps_insertion (g : PassGraph ω) (hw : g.SingleWriter) (htie : ∀ i, ¬ TransGen g.Precedes i i) :
    ∃ order, g.IsSchedule order ∧ g.solve = .ok (order.map fun i : Fin g.passes.size => g.idAt i) ∧
      (∀ i j, i < j → g.Independent i j → (order.idxOf i < order.idxOf j ↔ ¬ g.Crossed i j)) ∧
      ((∀ i j, ¬ g.Crossed i j) →
        (∀ i j, g.Precedes i j → order.idxOf i < order.idxOf j) ∧
        ∀ other : List (Fin g.passes.size), other.Nodup → (∀ i, i ∈ other) →
          (∀ i j, g.Precedes i j → other.idxOf i < other.idxOf j) → other = order) := by
  have hacyclic : ∀ i, ¬ TransGen g.Feeds i i := fun i hi => htie i (.single (.inl hi))
  obtain ⟨ids, hids⟩ := g.solve_ok_iff.mpr ⟨hw, hacyclic⟩
  obtain ⟨order, ho, rfl⟩ := order_of_solve hids
  have hs := isSchedule_of_order ho
  refine ⟨order, hs, hids, ?_, fun hcrossed => ⟨?_, ?_⟩⟩
  · intro i j hij hind
    exact idxOf_lt_iff_not_crossed ho htie hij hind
  · intro i j hij
    exact idxOf_lt_of_precedes ho htie hcrossed hij
  · intro other hnodup hcomplete hrespects
    exact Positions.eq_of_idxOf_lt hnodup hs.nodup (fun i => ⟨fun _ => hs.complete i, fun _ => hcomplete i⟩)
      (fun i j hne => precedes_total hne) hrespects fun i j hij => idxOf_lt_of_precedes ho htie hcrossed hij

def fanOut : PassGraph Unit where
  passes := #[
    ⟨"opaque", ⟨[.fragmentSampled ⟨0⟩], [.colorAttachmentWrite ⟨1⟩]⟩, ()⟩,
    ⟨"fog", ⟨[.computeSampled ⟨0⟩], [.computeStorageWrite ⟨2⟩]⟩, ()⟩,
    ⟨"depth", ⟨[], [.depthAttachmentWrite ⟨0⟩]⟩, ()⟩]

theorem solve_fanOut : fanOut.solve = .ok [⟨2, 0⟩, ⟨0, 0⟩, ⟨1, 0⟩] := by with_unfolding_all rfl

theorem singleWriter_fanOut : fanOut.SingleWriter := fanOut.singleWriter_iff.mp (by decide)

theorem not_transGen_fanOut : ∀ i, ¬ TransGen fanOut.Precedes i i :=
  not_transGen_precedes (fun i => [1, 2, 0].getD i 0) (by decide) (by decide)

/-- The last edge out of the producer leads to the consumer that was added last. -/
theorem not_crossed_fanOut (i j : Fin fanOut.passes.size) : ¬ fanOut.Crossed i j := by
  rintro ⟨hlt, ⟨_, hji⟩, hsource, hmeets⟩
  have hedges : ∀ i j, i < j → fanOut.Feeds j i ∨ ∀ k c, fanOut.Feeds k c → fanOut.Feeds k j ∧ c ≤ j := by decide
  rcases hedges i j hlt with hfeeds | hfeeds
  · exact hji (.single hfeeds)
  · cases hmeets with
    | only _ hj =>
        rw [reaches_adjacency, hsource] at hj
        exact hj (fanOut.latestSource_leadsTo j)
    | both hedge hlast h =>
        obtain ⟨hj, hle⟩ := hfeeds _ _ ((fanOut.edge_adjacency _ _).mp hedge)
        obtain rfl := Fin.le_antisymm hle (hlast j ((fanOut.edge_adjacency _ j).mpr hj) (.inr .refl))
        have hback := h.reaches
        rw [reaches_adjacency] at hback
        exact hji hback

theorem solve_keeps_insertion_fanOut :
    fanOut.SingleWriter ∧ (∀ i, ¬ TransGen fanOut.Precedes i i) ∧ (∀ i j, ¬ fanOut.Crossed i j) ∧
      ∃ order, fanOut.IsSchedule order ∧
        fanOut.solve = .ok (order.map fun i : Fin fanOut.passes.size => fanOut.idAt i) ∧
        [⟨2, 0⟩, ⟨0, 0⟩, ⟨1, 0⟩] = order.map (fun i : Fin fanOut.passes.size => fanOut.idAt i) ∧
        ∀ i j, fanOut.Precedes i j → order.idxOf i < order.idxOf j := by
  obtain ⟨order, hs, hsolve, _, hkeeps⟩ :=
    solve_keeps_insertion fanOut singleWriter_fanOut not_transGen_fanOut
  have hids := Except.ok.inj (solve_fanOut.symm.trans hsolve)
  exact ⟨singleWriter_fanOut, not_transGen_fanOut, not_crossed_fanOut, order, hs, hsolve, hids,
    (hkeeps not_crossed_fanOut).1⟩

def branches : PassGraph Unit where
  passes := #[
    ⟨"opaque", ⟨[.fragmentSampled ⟨0⟩], [.colorAttachmentWrite ⟨1⟩]⟩, ()⟩,
    ⟨"fog", ⟨[.computeSampled ⟨0⟩], [.computeStorageWrite ⟨2⟩]⟩, ()⟩,
    ⟨"tone", ⟨[.computeSampled ⟨1⟩], [.computeStorageWrite ⟨3⟩]⟩, ()⟩,
    ⟨"depth", ⟨[], [.depthAttachmentWrite ⟨0⟩]⟩, ()⟩]

/-- Independent passes can lose their order of insertion though it could be kept: `tone` comes before `fog`. -/
theorem solve_reorders_branches :
    branches.SingleWriter ∧ (∀ i, ¬ TransGen branches.Precedes i i) ∧
      branches.solve = .ok [⟨3, 0⟩, ⟨0, 0⟩, ⟨2, 0⟩, ⟨1, 0⟩] ∧
      ∃ i j : Fin branches.passes.size, branches.idAt i = ⟨1, 0⟩ ∧ branches.idAt j = ⟨2, 0⟩ ∧ i < j ∧
        branches.Independent i j := by
  refine ⟨branches.singleWriter_iff.mp (by decide), ?_, by with_unfolding_all rfl, ?_⟩
  · exact not_transGen_precedes (fun i => [1, 2, 3, 0].getD i 0) (by decide) (by decide)
  · obtain ⟨i, j, hi, hj, hlt, hends⟩ : ∃ i j : Fin branches.passes.size, branches.idAt i = ⟨1, 0⟩ ∧
        branches.idAt j = ⟨2, 0⟩ ∧ i < j ∧ ∀ k, ¬ branches.Feeds i k ∧ ¬ branches.Feeds j k := by decide
    refine ⟨i, j, hi, hj, hlt, fun hij => ?_, fun hji => ?_⟩
    · rcases hij.cases_head with rfl | ⟨k, hk, _⟩
      · exact lt_irrefl _ hlt
      · exact (hends k).1 hk
    · rcases hji.cases_head with rfl | ⟨k, hk, _⟩
      · exact lt_irrefl _ hlt
      · exact (hends k).2 hk

end FrameEngine.Graph.PassGraph
