import FrameEngine.Proofs.Graph.ScheduleBarriers
import Mathlib.Data.List.Induction

namespace FrameEngine.Graph

variable {ω : Type}

inductive Edit (ω : Type)
  | add (pass : Pass ω)
  | importImage (use : Usage)
  | clear

namespace Edit

def isAdd : Edit ω → Bool
  | .add _ => true
  | .importImage _ | .clear => false

def isClear : Edit ω → Bool
  | .clear => true
  | .add _ | .importImage _ => false

theorem isClear_iff (edit : Edit ω) : edit.isClear = true ↔ edit = .clear := by
  cases edit <;> simp [isClear]

end Edit

namespace PassGraph

variable {g : PassGraph ω} {id : PassId} {pass : Pass ω} {edits : List (Edit ω)}

def edit (g : PassGraph ω) : Edit ω → PassGraph ω
  | .add pass => (g.add pass).2
  | .importImage use => g.importImage use
  | .clear => g.clear

def after (edits : List (Edit ω)) : PassGraph ω := edits.foldl edit {}

def idsGiven (g : PassGraph ω) : List (Edit ω) → List PassId
  | [] => []
  | .add pass :: rest => (g.add pass).1 :: idsGiven (g.add pass).2 rest
  | .importImage use :: rest => idsGiven (g.importImage use) rest
  | .clear :: rest => idsGiven g.clear rest

/-- The graph has never so many passes, and is not cleared so often, that 32 bits cannot count them. -/
structure Numbered (edits : List (Edit ω)) : Prop where
  passes : ∀ before, before <+: edits → (after before).size < UInt32.size
  clears : edits.countP Edit.isClear < UInt32.size

theorem after_append (edits more : List (Edit ω)) : after (edits ++ more) = more.foldl edit (after edits) := by
  rw [after, List.foldl_append, after]

theorem after_concat (edits : List (Edit ω)) (last : Edit ω) : after (edits ++ [last]) = (after edits).edit last := by
  rw [after_append, List.foldl_cons, List.foldl_nil]

theorem idsGiven_append (g : PassGraph ω) (edits more : List (Edit ω)) :
    g.idsGiven (edits ++ more) = g.idsGiven edits ++ (edits.foldl edit g).idsGiven more := by
  induction edits generalizing g with
  | nil => rfl
  | cons first edits ih =>
      cases first with
      | add pass => exact congrArg ((g.add pass).1 :: ·) (ih _)
      | importImage use => exact ih _
      | clear => exact ih _

theorem Numbered.of_append {more : List (Edit ω)} (h : Numbered (edits ++ more)) : Numbered edits where
  passes before hbefore := h.passes before (hbefore.trans (List.prefix_append ..))
  clears := by
    have hall := h.clears
    rw [List.countP_append] at hall
    omega

theorem Numbered.clears_lt (h : Numbered (edits ++ [.clear])) : edits.countP Edit.isClear + 1 < UInt32.size := by
  have hclears := h.clears
  rw [List.countP_append, List.countP_singleton] at hclears
  exact hclears

theorem size_after_le (edits : List (Edit ω)) : (after edits).size ≤ edits.countP Edit.isAdd := by
  induction edits using List.reverseRecOn with
  | nil => exact Nat.le_refl 0
  | append_singleton edits last ih =>
      rw [after_concat, List.countP_append, List.countP_singleton]
      cases last with
      | add pass => exact (Array.size_push ..).le.trans (Nat.succ_le_succ ih)
      | importImage use => exact ih
      | clear => exact Nat.zero_le _

theorem numbered_of_counts (hadds : edits.countP Edit.isAdd < UInt32.size)
    (hclears : edits.countP Edit.isClear < UInt32.size) : Numbered edits where
  passes before hbefore := by
    have hsize := size_after_le before
    have hcount : before.countP Edit.isAdd ≤ edits.countP Edit.isAdd := hbefore.sublist.countP_le
    omega
  clears := hclears

theorem Numbered.size_lt (h : Numbered edits) : (after edits).size < UInt32.size := h.passes edits (List.prefix_refl _)

theorem generation_clear (h : g.generation.toNat + 1 < UInt32.size) :
    g.clear.generation.toNat = g.generation.toNat + 1 := by
  rw [clear, UInt32.toNat_add, UInt32.toNat_one]
  exact Nat.mod_eq_of_lt h

/-- The generation counts how often the graph was cleared. -/
theorem Numbered.generation_after (h : Numbered edits) :
    (after edits).generation.toNat = edits.countP Edit.isClear := by
  induction edits using List.reverseRecOn with
  | nil => rfl
  | append_singleton edits last ih =>
      have hbefore := ih h.of_append
      rw [after_concat, List.countP_append, List.countP_singleton]
      cases last with
      | add pass => exact hbefore
      | importImage use => exact hbefore
      | clear =>
          have hclears := h.clears_lt
          rw [← hbefore] at hclears ⊢
          exact generation_clear hclears

theorem position_of_not_isLive (h : ¬ g.IsLive id) : g.position id = .error (.stalePass id.index id.generation) := by
  rw [position]
  split
  next hindex => exact if_neg fun hgeneration => h ⟨hindex, hgeneration⟩
  next => rfl

theorem pass_of_not_isLive (h : ¬ g.IsLive id) : g.pass id = .error (.stalePass id.index id.generation) := by
  rw [PassGraph.pass, position_of_not_isLive h]
  rfl

theorem isLive_iff : g.IsLive id ↔ (g.pass id).isOk = true := by
  by_cases h : g.IsLive id
  · obtain ⟨pass, hpass⟩ := pass_of_isLive h
    simp [h, hpass, Except.isOk, Except.toBool]
  · simp [h, pass_of_not_isLive h, Except.isOk, Except.toBool]

theorem pass_eq_ok_iff : g.pass id = .ok pass ↔ g.IsLive id ∧ g.passes[id.index.toNat]? = some pass := by
  by_cases h : g.IsLive id
  · have hindex : id.index.toNat < g.passes.size := h.1
    have hpass : g.pass id = .ok g.passes[id.index.toNat] := by
      simp [PassGraph.pass, position, hindex, h.2, bind, Except.bind, pure, Except.pure]
    rw [hpass, Array.getElem?_eq_getElem hindex]
    simp [h]
  · simp [h, pass_of_not_isLive h]

theorem isLive_idAt (g : PassGraph ω) {position : Nat} (hposition : position < g.size)
    (hsize : g.size ≤ UInt32.size) : g.IsLive (g.idAt position) :=
  ⟨(g.index_idAt (Nat.lt_of_lt_of_le hposition hsize)).symm ▸ hposition, rfl⟩

/-- The live ids are those of the positions that there are. -/
theorem mem_ids_iff (hsize : g.size ≤ UInt32.size) : id ∈ g.ids ↔ g.IsLive id := by
  rw [ids, List.mem_map]
  constructor
  · rintro ⟨position, hposition, rfl⟩
    exact g.isLive_idAt (List.mem_range.mp hposition) hsize
  · rintro ⟨hindex, hgeneration⟩
    refine ⟨id.index.toNat, List.mem_range.mpr hindex, ?_⟩
    rw [idAt, UInt32.ofNat_toNat, ← hgeneration]

structure Resolves (g : PassGraph ω) (id : PassId) (found : Pass ω) : Prop where
  pass : g.pass id = .ok found
  changePass : ∀ change, ∃ g', g.changePass id change = .ok g' ∧ g'.pass id = .ok (change found) ∧
    ∀ other, other ≠ id → g'.pass other = g.pass other

structure Refuses (g : PassGraph ω) (id : PassId) : Prop where
  pass : g.pass id = .error (.stalePass id.index id.generation)
  changePass : ∀ change, g.changePass id change = .error (.stalePass id.index id.generation)
  barriers : ∀ aspects order, id ∈ order → ∃ cause, g.barriers aspects order = .error cause

theorem pass_modify {position : Nat} {change : Pass ω → Pass ω} {other : PassId}
    (hother : other.generation = g.generation → other.index.toNat ≠ position) :
    PassGraph.pass { g with passes := g.passes.modify position change } other = g.pass other := by
  by_cases hlive : g.IsLive other
  · obtain ⟨pass, hpass⟩ := pass_of_isLive hlive
    rw [hpass, pass_eq_ok_iff]
    refine ⟨⟨by simpa using hlive.1, hlive.2⟩, ?_⟩
    rw [Array.getElem?_modify, if_neg (Ne.symm (hother hlive.2))]
    exact (pass_eq_ok_iff.mp hpass).2
  · have hstale : ¬ IsLive { g with passes := g.passes.modify position change } other := by
      intro h
      exact hlive ⟨by simpa using h.1, h.2⟩
    rw [pass_of_not_isLive hlive, pass_of_not_isLive hstale]

theorem resolves_of_pass (h : g.pass id = .ok pass) : g.Resolves id pass where
  pass := h
  changePass change := by
    obtain ⟨hlive, hget⟩ := pass_eq_ok_iff.mp h
    refine ⟨{ g with passes := g.passes.modify id.index.toNat change }, ?_, ?_, fun other hne => ?_⟩
    · simp [PassGraph.changePass, position, hlive.1, hlive.2, bind, Except.bind, pure, Except.pure]
    · refine pass_eq_ok_iff.mpr ⟨⟨by simpa using hlive.1, hlive.2⟩, ?_⟩
      rw [Array.getElem?_modify, if_pos rfl, hget, Option.map_some]
    · refine pass_modify fun hgeneration hindex => hne ?_
      -- ids of one generation differ in their indices
      exact congrArg₂ PassId.mk (UInt32.toNat_inj.mp hindex) (hgeneration.trans hlive.2.symm)

/-- Barriers are made up to the first stale id, and it is reported if the ids before it go well. -/
theorem barriersFrom_of_not_isLive (h : ¬ g.IsLive id) (aspects : AspectTable) (before rest : List PassId)
    (states : ImageStates) :
    g.barriersFrom aspects (before ++ id :: rest) states =
      (g.barriersFrom aspects before states).bind fun _ => .error (.stalePass id.index id.generation) := by
  induction before generalizing states with
  | nil =>
      simp only [List.nil_append, barriersFrom, pass_of_not_isLive h, bind, Except.bind]
  | cons first before ih =>
      cases hfirst : g.pass first with
      | error cause => simp only [List.cons_append, barriersFrom, hfirst, bind, Except.bind]
      | ok pass =>
          rw [List.cons_append, barriersFrom_cons hfirst, barriersFrom_cons hfirst]
          split
          · rfl
          next barriers after _ =>
            rw [ih]
            cases g.barriersFrom aspects before after <;> rfl

theorem refuses_of_not_isLive (h : ¬ g.IsLive id) : g.Refuses id where
  pass := pass_of_not_isLive h
  changePass change := by
    rw [PassGraph.changePass, position_of_not_isLive h]
    rfl
  barriers aspects order horder := by
    obtain ⟨before, rest, rfl⟩ := List.append_of_mem horder
    rw [barriers, barriersFrom_of_not_isLive h]
    cases g.barriersFrom aspects before (ImageStates.ofImports g.imports) with
    | error cause => exact ⟨cause, rfl⟩
    | ok lists => exact ⟨_, rfl⟩

section Issued

/-- What is known of the ids given so far. No id is of a generation to come, and those of the present one are live. -/
structure Issued (g : PassGraph ω) (given : List PassId) : Prop where
  nodup : given.Nodup
  live : given.filter (g.IsLive ·) = g.ids
  past : ∀ id ∈ given, id.generation.toNat ≤ g.generation.toNat
  present : ∀ id ∈ given, id.generation = g.generation → g.IsLive id

theorem issued_new : Issued ({} : PassGraph ω) [] := ⟨List.nodup_nil, rfl, by simp, by simp⟩

variable {given : List PassId}

theorem ids_add (g : PassGraph ω) (pass : Pass ω) : (g.add pass).2.ids = g.ids ++ [(g.add pass).1] := by
  have hsize : (g.add pass).2.size = g.size + 1 := Array.size_push ..
  rw [ids, hsize, List.range_succ, List.map_append]
  rfl

theorem isLive_add (h : g.IsLive id) (pass : Pass ω) : (g.add pass).2.IsLive id :=
  ⟨(Nat.lt_succ_of_lt h.1).trans_eq (Array.size_push ..).symm, h.2⟩

theorem pass_add (g : PassGraph ω) (pass : Pass ω) (hsize : g.size < UInt32.size) :
    (g.add pass).2.pass (g.add pass).1 = .ok pass := by
  have hpushed : (g.add pass).2.size = g.size + 1 := Array.size_push ..
  have hlive : (g.add pass).2.IsLive (g.add pass).1 := isLive_idAt _ (by omega) (by omega)
  have hindex : (g.add pass).1.index.toNat = g.passes.size := g.index_idAt hsize
  refine pass_eq_ok_iff.mpr ⟨hlive, ?_⟩
  rw [hindex]
  exact Array.getElem?_push_size

theorem Issued.add (h : g.Issued given) (pass : Pass ω) (hsize : g.size < UInt32.size) :
    (g.add pass).2.Issued (given ++ [(g.add pass).1]) := by
  have hnew : (g.add pass).2.IsLive (g.add pass).1 := (pass_eq_ok_iff.mp (g.pass_add pass hsize)).1
  have hfresh : (g.add pass).1 ∉ given := by
    intro hmem
    have hlt : (g.idAt g.size).index.toNat < g.size := (h.present _ hmem rfl).1
    rw [g.index_idAt hsize] at hlt
    exact Nat.lt_irrefl _ hlt
  refine ⟨?_, ?_, ?_, ?_⟩
  · exact h.nodup.append (List.nodup_singleton _) (List.disjoint_singleton.mpr hfresh)
  · rw [List.filter_append, ids_add, ← h.live]
    congr 1
    · refine List.filter_congr fun id hid => ?_
      rw [decide_eq_decide]
      exact ⟨fun hlive => h.present id hid hlive.2, fun hlive => isLive_add hlive pass⟩
    · simp [hnew]
  · exact List.forall_mem_append.mpr ⟨h.past, List.forall_mem_singleton.mpr (Nat.le_refl _)⟩
  · refine List.forall_mem_append.mpr ⟨fun id hid hgeneration => ?_, List.forall_mem_singleton.mpr fun _ => hnew⟩
    exact isLive_add (h.present id hid hgeneration) pass

theorem Issued.importImage (h : g.Issued given) (use : Usage) : (g.importImage use).Issued given :=
  ⟨h.nodup, h.live, h.past, h.present⟩

theorem Issued.clear (h : g.Issued given) (hclears : g.generation.toNat + 1 < UInt32.size) :
    g.clear.Issued given where
  nodup := h.nodup
  live := List.filter_eq_nil_iff.mpr fun id _ => by simp [IsLive, PassGraph.clear]
  past id hid := by
    rw [generation_clear hclears]
    exact Nat.le_succ_of_le (h.past id hid)
  present id hid hgeneration := by
    have hpast := h.past id hid
    rw [hgeneration, generation_clear hclears] at hpast
    omega

theorem Numbered.issued (h : Numbered edits) : (after edits).Issued (idsGiven {} edits) := by
  induction edits using List.reverseRecOn with
  | nil => exact issued_new
  | append_singleton edits last ih =>
      have hbefore := h.of_append
      have hgiven := ih hbefore
      rw [idsGiven_append, after_concat]
      cases last with
      | add pass => exact hgiven.add pass hbefore.size_lt
      | importImage use =>
          rw [idsGiven, idsGiven, List.append_nil]
          exact hgiven.importImage use
      | clear =>
          rw [idsGiven, idsGiven, List.append_nil]
          refine hgiven.clear ?_
          rw [hbefore.generation_after]
          exact h.clears_lt

theorem Numbered.ids_eq (h : Numbered edits) :
    (after edits).ids = (idsGiven {} edits).filter fun id => ((after edits).pass id).isOk := by
  rw [← h.issued.live]
  refine List.filter_congr fun id _ => ?_
  rw [Bool.eq_iff_iff, decide_eq_true_iff]
  exact isLive_iff

end Issued

section Since

theorem pass_edit_of_not_clear (h : g.pass id = .ok pass) {next : Edit ω} (hnext : next.isClear = false) :
    (g.edit next).pass id = .ok pass := by
  obtain ⟨hlive, hget⟩ := pass_eq_ok_iff.mp h
  cases next with
  | add other =>
      refine pass_eq_ok_iff.mpr ⟨isLive_add hlive other, ?_⟩
      exact (Array.getElem?_push_lt hlive.1).trans ((Array.getElem?_eq_getElem hlive.1).symm.trans hget)
  | importImage use => exact h
  | clear => cases hnext

theorem pass_edits_of_not_clear {later : List (Edit ω)} (hlater : ∀ next ∈ later, next.isClear = false)
    (h : g.pass id = .ok pass) : (later.foldl edit g).pass id = .ok pass := by
  induction later generalizing g with
  | nil => exact h
  | cons next later ih =>
      obtain ⟨hnext, hrest⟩ := List.forall_mem_cons.mp hlater
      exact ih hrest (pass_edit_of_not_clear h hnext)

variable {before later : List (Edit ω)}

theorem Numbered.resolves (h : Numbered (before ++ .add pass :: later)) (hlater : .clear ∉ later) :
    (after (before ++ .add pass :: later)).Resolves ((after before).add pass).1 pass := by
  have hkept : ∀ next ∈ later, next.isClear = false := by
    intro next hnext
    rw [Bool.eq_false_iff, ne_eq, Edit.isClear_iff]
    rintro rfl
    exact hlater hnext
  rw [after_append, List.foldl_cons]
  exact resolves_of_pass (pass_edits_of_not_clear hkept (pass_add _ pass h.of_append.size_lt))

theorem Numbered.refuses (h : Numbered (before ++ .add pass :: later)) (hlater : .clear ∈ later) :
    (after (before ++ .add pass :: later)).Refuses ((after before).add pass).1 := by
  refine refuses_of_not_isLive fun hlive => ?_
  -- the graph has been cleared more often than before the id was given
  have hcleared : 0 < later.countP Edit.isClear := List.countP_pos_iff.mpr ⟨.clear, hlater, rfl⟩
  have hgeneration := congrArg UInt32.toNat hlive.2
  rw [h.generation_after, List.countP_append, List.countP_cons] at hgeneration
  have hbefore : ((after before).add pass).1.generation.toNat = before.countP Edit.isClear :=
    h.of_append.generation_after
  omega

end Since

/-- As long as 32 bits can count the passes of a graph and how often it was cleared: the id of a pass leads to this very
pass until the graph is cleared, and is refused from then on, also in an order that barriers are asked for. Ids are never
given twice; the graph lists those it gave that are valid, in their order, and refuses all others. -/
theorem ids_of_edits (edits : List (Edit ω)) (h : Numbered edits) :
    (∀ before pass later, edits = before ++ .add pass :: later →
      (.clear ∉ later → (after edits).Resolves ((after before).add pass).1 pass) ∧
      (.clear ∈ later → (after edits).Refuses ((after before).add pass).1)) ∧
    (idsGiven {} edits).Nodup ∧
    (after edits).ids = (idsGiven {} edits).filter (fun id => ((after edits).pass id).isOk) ∧
    ∀ id, id ∉ (after edits).ids → (after edits).Refuses id := by
  refine ⟨?_, h.issued.nodup, h.ids_eq, fun id hid => ?_⟩
  · rintro before pass later rfl
    exact ⟨h.resolves, h.refuses⟩
  · exact refuses_of_not_isLive fun hlive => hid ((mem_ids_iff h.size_lt.le).mpr hlive)

def reusedPosition : List (Edit Unit) :=
  [.add ⟨"shadow", ⟨[], [.depthAttachmentWrite ⟨0⟩]⟩, ()⟩, .importImage (.external ⟨1⟩ .general), .clear,
    .add ⟨"mix", ⟨[], [.computeStorageWrite ⟨2⟩]⟩, ()⟩, .add ⟨"blur", ⟨[.computeSampled ⟨2⟩], []⟩, ()⟩]

theorem ids_of_edits_reusedPosition :
    Numbered reusedPosition ∧ (after reusedPosition).Refuses ⟨0, 0⟩ ∧
      (after reusedPosition).Resolves ⟨0, 1⟩ ⟨"mix", ⟨[], [.computeStorageWrite ⟨2⟩]⟩, ()⟩ ∧
      (after reusedPosition).ids = [⟨0, 1⟩, ⟨1, 1⟩] ∧ (idsGiven {} reusedPosition).length = 3 := by
  have hnumbered : Numbered reusedPosition := numbered_of_counts (by decide) (by decide)
  have hadded := (ids_of_edits reusedPosition hnumbered).1
  refine ⟨hnumbered, (hadded [] _ _ rfl).2 ?_, (hadded (reusedPosition.take 3) _ _ rfl).1 ?_, rfl, rfl⟩
  · exact .tail _ (.head _)
  · simp

end PassGraph

end FrameEngine.Graph
