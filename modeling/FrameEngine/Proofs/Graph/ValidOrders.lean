import FrameEngine.Proofs.Graph.ScheduleBarriers
import FrameEngine.Proofs.Graph.SolveOutcome

namespace FrameEngine.Graph

theorem entries_append {ω : Type} {passes more : List (Pass ω)} {lists others : List (List ImageBarrier)}
    (h : passes.length = lists.length) :
    entries (passes ++ more) (lists ++ others) = entries passes lists ++ entries more others :=
  List.zipWith_append h

theorem map_io_entries {ω : Type} {passes : List (Pass ω)} {lists : List (List ImageBarrier)}
    (h : passes.length = lists.length) : (entries passes lists).map (·.io) = passes.map (·.io) := by
  induction passes generalizing lists with
  | nil => rfl
  | cons pass passes ih =>
      cases lists with
      | nil => cases h
      | cons list lists => exact congrArg (pass.io :: ·) (ih (Nat.succ.inj h))

namespace PassGraph

variable {ω : Type} {g : PassGraph ω} {before after : List (Fin g.passes.size)} {i : Fin g.passes.size}
  {image : ImageHandle}

def Imports (g : PassGraph ω) (image : ImageHandle) : Prop := ∃ use ∈ g.imports, use.image = image

def IsValidOrder (g : PassGraph ω) (order : List PassId) : Prop :=
  ∃ positions, g.IsSchedule positions ∧ order.map g.position = positions.map .ok

inductive SourceOf (g : PassGraph ω) (i : Fin g.passes.size) (image : ImageHandle) : Usage → Prop
  | produced {j use} (hj : j ≠ i) (honly : ∀ k, k ≠ i → g.Writes k image → k = j)
      (huse : lastUse? (g.passAt j).io.writes image = some use) : SourceOf g i image use
  | imported {use} (hnone : ∀ j, j ≠ i → ¬ g.Writes j image) (huse : lastUse? g.imports image = some use) :
      SourceOf g i image use

theorem writes_of_lastUse? {use : Usage} (h : lastUse? (g.passAt i).io.writes image = some use) :
    g.Writes i image :=
  ⟨use, lastUse?_mem h⟩

theorem SourceOf.unique {use other : Usage} (h : g.SourceOf i image use) (h' : g.SourceOf i image other) :
    other = use := by
  cases h with
  | @produced j _ hj honly huse =>
      cases h' with
      | @produced k _ hk _ huse' =>
          obtain rfl := honly k hk (writes_of_lastUse? huse')
          exact Option.some.inj (huse'.symm.trans huse)
      | imported hnone _ => exact absurd (writes_of_lastUse? huse) (hnone j hj)
  | imported hnone huse =>
      cases h' with
      | @produced k _ hk _ huse' => exact absurd (writes_of_lastUse? huse') (hnone k hk)
      | imported _ huse' => exact Option.some.inj (huse'.symm.trans huse)

theorem IsSchedule.ne_of_mem_before (h : g.IsSchedule (before ++ i :: after)) {j : Fin g.passes.size}
    (hj : j ∈ before) : j ≠ i :=
  fun he => Positions.notMem_before h.nodup (he ▸ hj)

theorem IsSchedule.mem_before (h : g.IsSchedule (before ++ i :: after)) {j : Fin g.passes.size} (hji : j ≠ i)
    (hw : g.Writes j image) (hr : g.Reads i image) : j ∈ before :=
  Positions.mem_of_idxOf_lt h.nodup (h.producers_first j i ⟨hji, image, hw, hr⟩)

theorem writesImage_iff (j : Fin g.passes.size) (image : ImageHandle) :
    (g.passAt j).io.writesImage image = true ↔ g.Writes j image :=
  (g.passAt j).io.writesImage_iff image

/-- What is defined when the turn of a pass comes does not depend on the schedule. -/
theorem IsSchedule.defined_iff (h : g.IsSchedule (before ++ i :: after)) (hr : g.Reads i image) :
    Defined g.imports ((before.map g.passAt).map (·.io)) image ↔
      (∃ j, j ≠ i ∧ g.Writes j image) ∨ g.Imports image := by
  refine or_congr_left ?_
  simp only [List.mem_map, exists_exists_and_eq_and, writesImage_iff]
  constructor
  · rintro ⟨j, hj, hw⟩
    exact ⟨j, h.ne_of_mem_before hj, hw⟩
  · rintro ⟨j, hji, hw⟩
    exact ⟨j, h.mem_before hji hw hr, hw⟩

/-- In a schedule, the nearest earlier writer of an image is the pass that produces it. -/
theorem IsSchedule.sourceOf (h : g.IsSchedule (before ++ i :: after)) (hs : g.SingleWriter)
    (hr : g.Reads i image) {past since : List Entry} {use : Usage}
    (hpast : past.map (·.io) = (before.map g.passAt).map (·.io))
    (hsource : Source g.imports past image use since) : g.SourceOf i image use := by
  have hio {entry : Entry} (he : entry ∈ past) : ∃ j ∈ before, (g.passAt j).io = entry.io := by
    have hm : entry.io ∈ past.map (·.io) := List.mem_map_of_mem he
    rw [hpast] at hm
    simpa using hm
  cases hsource with
  | written earlier entry hsplit huse _ =>
      have he : entry ∈ past := hsplit ▸ by simp
      obtain ⟨j, hj, hjo⟩ := hio he
      rw [← hjo] at huse
      exact .produced (h.ne_of_mem_before hj) (fun k _ hk => hs k j image hk (writes_of_lastUse? huse)) huse
  | imported huse hnone =>
      -- another writer would have come before the pass, and so be among the entries
      refine .imported (fun j hji hw => ?_) huse
      have hm : (g.passAt j).io ∈ past.map (·.io) := by
        rw [hpast, List.map_map]
        exact List.mem_map_of_mem (h.mem_before hji hw hr)
      obtain ⟨entry, he, heo⟩ := List.mem_map.mp hm
      have hf := hnone entry he
      rw [heo, Bool.eq_false_iff] at hf
      exact hf ((writesImage_iff j image).mpr hw)

theorem map_pass {order : List PassId} {positions : List (Fin g.passes.size)}
    (h : order.map g.position = positions.map .ok) :
    order.map g.pass = (positions.map g.passAt).map .ok := by
  have hpass : g.pass = fun id => (g.position id).map g.passAt := by
    funext id
    simp only [PassGraph.pass, passAt, bind, Except.bind, pure, Except.pure, Except.map]
  calc order.map g.pass = (order.map g.position).map (·.map g.passAt) := by
        rw [hpass, List.map_map]
        rfl
    _ = (positions.map g.passAt).map .ok := by
        rw [h, List.map_map, List.map_map]
        rfl

theorem IsSchedule.barriers_fail_iff {positions : List (Fin g.passes.size)} (h : g.IsSchedule positions)
    (aspects : AspectTable) {order : List PassId} (ho : order.map g.position = positions.map .ok) :
    (∃ cause, g.barriers aspects order = .error cause) ↔
      ∃ i image, g.Reads i image ∧ ¬ g.Imports image ∧ ∀ j, j ≠ i → ¬ g.Writes j image := by
  rw [PassGraph.barriers_fail_iff (map_pass ho)]
  constructor
  · rintro ⟨passes, pass, rest, read, hsplit, hread, hundef⟩
    obtain ⟨before, _, rfl, rfl, htail⟩ := List.map_eq_append_iff.mp hsplit
    obtain ⟨i, after, rfl, rfl, rfl⟩ := List.map_eq_cons_iff.mp htail
    have hr : g.Reads i read.image := ⟨read, hread, rfl⟩
    rw [h.defined_iff hr, not_or] at hundef
    exact ⟨i, read.image, hr, hundef.2, fun j hji hw => hundef.1 ⟨j, hji, hw⟩⟩
  · rintro ⟨i, _, ⟨read, hread, rfl⟩, himport, hnone⟩
    obtain ⟨before, after, rfl⟩ := List.append_of_mem (h.complete i)
    refine ⟨_, _, _, read, by rw [List.map_append, List.map_cons], hread, ?_⟩
    rw [h.defined_iff ⟨read, hread, rfl⟩, not_or]
    exact ⟨fun ⟨j, hji, hw⟩ => hnone j hji hw, himport⟩

theorem IsSchedule.barrier_source {aspects : AspectTable} {order : List PassId}
    {positions : List (Fin g.passes.size)} (h : g.IsSchedule positions) (hs : g.SingleWriter)
    (ho : order.map g.position = positions.map .ok) {lists : List (List ImageBarrier)}
    (hok : g.barriers aspects order = .ok lists) {id : PassId} {list : List ImageBarrier}
    (hmem : (id, list) ∈ order.zip lists) (hi : g.position id = .ok i) {b : ImageBarrier} (hb : b ∈ list) :
    ∃ use, g.SourceOf i b.image use ∧ b.sourceAccesses = use.accesses ∧ b.sourceStages = use.stages := by
  have hcomplete := (complete_of_barriers (map_pass ho) hok).2
  obtain ⟨firsts, lasts, made, more, rfl, rfl, hlength⟩ := Positions.mem_zip_split hmem
  rw [List.map_append, List.map_cons] at ho
  obtain ⟨before, _, rfl, hbefore, htail⟩ := List.map_eq_append_iff.mp ho.symm
  obtain ⟨i', after, rfl, hi', _⟩ := List.map_eq_cons_iff.mp htail
  obtain rfl : i' = i := Except.ok.inj (hi'.trans hi)
  have hmade : (before.map g.passAt).length = made.length := by
    simpa [hlength] using congrArg List.length hbefore
  rw [List.map_append, entries_append hmade] at hcomplete
  have hentry := hcomplete _ ⟨(g.passAt i').io, list⟩ _ rfl
  have hr : g.Reads i' b.image := by
    have hm : b.image ∈ list.map (·.image) := List.mem_map_of_mem hb
    rw [hentry.images, List.mem_eraseDups] at hm
    exact List.mem_map.mp hm
  obtain ⟨use, since, hsource, haccesses, hstages, _⟩ := (hentry.meets b hb).source
  exact ⟨use, h.sourceOf hs hr (map_io_entries hmade) hsource, haccesses, hstages⟩

theorem isValidOrder_of_solve {ids : List PassId} (h : g.solve = .ok ids) (hsize : g.size ≤ UInt32.size) :
    g.IsValidOrder ids := by
  obtain ⟨order, ho, rfl⟩ := order_of_solve h
  refine ⟨order, isSchedule_of_order ho, ?_⟩
  rw [List.map_map]
  exact List.map_congr_left fun i _ => g.position_idAt hsize i

/-- Once a graph can be solved, every order of its passes with producers before consumers, the solved
one among them, fails for the same reads and has barriers wait for the same writes. -/
theorem barrier_sources_of_solve (g : PassGraph ω) (ids : List PassId) (h : g.solve = .ok ids)
    (aspects : AspectTable) :
    (g.size ≤ UInt32.size → g.IsValidOrder ids) ∧
      ∀ order, g.IsValidOrder order →
        ((∃ image name, g.barriers aspects order = .error (.undefinedLayout image name)) ↔
          ∃ i image, g.Reads i image ∧ ¬ g.Imports image ∧ ∀ j, j ≠ i → ¬ g.Writes j image) ∧
        (∀ cause, g.barriers aspects order = .error cause → ∃ image name, cause = .undefinedLayout image name) ∧
        ∀ lists, g.barriers aspects order = .ok lists → lists.length = order.length ∧
          ∀ id list i, (id, list) ∈ order.zip lists → g.position id = .ok i → ∀ b ∈ list,
            ∃ use, g.SourceOf i b.image use ∧ b.sourceAccesses = use.accesses ∧ b.sourceStages = use.stages ∧
              ∀ other, g.SourceOf i b.image other → other = use := by
  have hs : g.SingleWriter := ((g.solve_ok_iff).mp ⟨ids, h⟩).1
  refine ⟨isValidOrder_of_solve h, ?_⟩
  rintro order ⟨positions, hp, ho⟩
  have hcause : ∀ cause, g.barriers aspects order = .error cause →
      ∃ image name, cause = .undefinedLayout image name := by
    intro cause hfail
    obtain ⟨pass, read, _, rfl⟩ := undefined_of_barriers (map_pass ho) hfail
    exact ⟨read.image, pass.name, rfl⟩
  refine ⟨?_, hcause, fun lists hok => ⟨?_, ?_⟩⟩
  · rw [← hp.barriers_fail_iff aspects ho]
    constructor
    · rintro ⟨image, name, hfail⟩
      exact ⟨_, hfail⟩
    · rintro ⟨cause, hfail⟩
      obtain ⟨image, name, rfl⟩ := hcause cause hfail
      exact ⟨image, name, hfail⟩
  · exact (complete_of_barriers (map_pass ho) hok).1
  · intro id list i hmem hi b hb
    obtain ⟨use, hsource, haccesses, hstages⟩ := hp.barrier_source hs ho hok hmem hi hb
    exact ⟨use, hsource, haccesses, hstages, fun _ hother => hsource.unique hother⟩

theorem barrier_sources_of_solve_twoChains :
    ∃ ids, twoChains.solve = .ok ids ∧ twoChains.IsValidOrder ids ∧
      ∃ lists, twoChains.barriers [] ids = .ok lists ∧ lists.length = ids.length ∧
        ∀ list, (⟨0, 7⟩, list) ∈ ids.zip lists → ∀ b ∈ list,
          ∃ use, twoChains.SourceOf (0 : Fin 4) b.image use ∧ b.sourceAccesses = use.accesses ∧
            b.sourceStages = use.stages := by
  obtain ⟨hvalid, hall⟩ := barrier_sources_of_solve twoChains _ solve_twoChains []
  have hids := hvalid (by decide)
  obtain ⟨lists, hlists⟩ : ∃ lists, twoChains.barriers [] [⟨1, 7⟩, ⟨0, 7⟩, ⟨2, 7⟩, ⟨3, 7⟩] = .ok lists := ⟨_, rfl⟩
  obtain ⟨_, _, hok⟩ := hall _ hids
  obtain ⟨hlength, hsource⟩ := hok lists hlists
  refine ⟨_, solve_twoChains, hids, lists, hlists, hlength, fun list hmem b hb => ?_⟩
  obtain ⟨use, huse, haccesses, hstages, _⟩ := hsource ⟨0, 7⟩ list (0 : Fin 4) hmem rfl b hb
  exact ⟨use, huse, haccesses, hstages⟩

end PassGraph

end FrameEngine.Graph
