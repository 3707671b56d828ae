import FrameEngine.Proofs.Frame.Rebuild
import Mathlib.Data.List.Destutter

namespace FrameEngine.Frame

open FrameEngine.Asset FrameEngine.Graph FrameEngine.Slots

variable {found : List Nat} {images : RenderImages} {frame : Nat}

/-- Some slot is found, then another, and then the first one again. -/
def Returns (found : List Nat) : Prop := ∃ slot other, slot ≠ other ∧ [slot, other, slot].Sublist found

theorem Returns.cons (h : Returns found) (first : Nat) : Returns (first :: found) := by
  obtain ⟨slot, other, hne, hsub⟩ := h
  exact ⟨slot, other, hne, hsub.cons first⟩

theorem returns_of_mem {slot other : Nat} (hne : slot ≠ other) (h : slot ∈ found) :
    Returns (slot :: other :: found) :=
  ⟨slot, other, hne, ((List.singleton_sublist.mpr h).cons_cons other).cons_cons slot⟩

/-- A list without a repetition of neighbors survives the removal of such repetitions. -/
theorem sublist_destutter {l chain : List Nat} (hchain : chain.IsChain (· ≠ ·)) (h : chain.Sublist l) :
    chain.Sublist (l.destutter (· ≠ ·)) := by
  induction l using List.twoStepInduction generalizing chain with
  | nil => exact h
  | singleton => exact h
  | cons_cons a b l _ ih =>
      rw [List.destutter_cons_cons]
      rw [List.sublist_cons_iff] at h
      split
      · rcases h with htail | ⟨rest, rfl, htail⟩
        · exact (ih b hchain htail).cons a
        · exact (ih b hchain.tail htail).cons_cons a
      next heq =>
        obtain rfl : a = b := not_not.mp heq
        rcases h with htail | ⟨rest, rfl, htail⟩
        · exact ih a hchain htail
        -- the chain cannot go on with the item it begins with
        · refine ih a hchain (List.Sublist.cons_cons a ?_)
          rcases List.sublist_cons_iff.mp htail with hlast | ⟨others, rfl, _⟩
          · exact hlast
          · exact absurd rfl hchain.rel

namespace Work

theorem mergeAdjacent_cons (slot : Nat) (found : List Nat) :
    ∃ others, mergeAdjacent (slot :: found) = slot :: others := by
  rw [mergeAdjacent]
  split
  · split
    next heq => exact ⟨_, by rw [heq]⟩
    · exact ⟨_, rfl⟩
  · exact ⟨[], rfl⟩

theorem mergeAdjacent_cons_cons (slot next : Nat) (found : List Nat) :
    mergeAdjacent (slot :: next :: found) =
      if slot = next then mergeAdjacent (next :: found) else slot :: mergeAdjacent (next :: found) := by
  obtain ⟨others, hmerged⟩ := mergeAdjacent_cons next found
  rw [mergeAdjacent, hmerged]

theorem mergeAdjacent_eq_destutter (found : List Nat) : mergeAdjacent found = found.destutter (· ≠ ·) := by
  induction found using List.twoStepInduction with
  | nil => rfl
  | singleton slot => rfl
  | cons_cons slot next found _ ih =>
      have ih : mergeAdjacent (next :: found) = (next :: found).destutter (· ≠ ·) := ih next
      rw [mergeAdjacent_cons_cons, List.destutter_cons_cons, ← List.destutter_cons', ← List.destutter_cons', ih,
        ite_not]
      split
      next heq => rw [heq]
      · rfl

theorem mem_mergeAdjacent {slot : Nat} : slot ∈ mergeAdjacent found ↔ slot ∈ found := by
  refine ⟨mem_of_mem_mergeAdjacent, fun h => ?_⟩
  rw [mergeAdjacent_eq_destutter]
  exact List.singleton_sublist.mp (sublist_destutter (List.isChain_singleton slot) (List.singleton_sublist.mpr h))

theorem mergeAdjacent_of_not_returns (h : ¬Returns found) : mergeAdjacent found = found.eraseDups := by
  induction found using List.twoStepInduction with
  | nil => rfl
  | singleton slot => rfl
  | cons_cons slot next found _ ih =>
      have ih := ih next fun hreturns => h (hreturns.cons slot)
      rw [mergeAdjacent_cons_cons, ih]
      split
      next heq =>
        subst heq
        simp [List.eraseDups_cons]
      -- the first slot does not come back, so there is nothing of it to erase
      next hne =>
        have hnew : slot ∉ next :: found := by
          simpa [hne] using fun hmem => h (returns_of_mem hne hmem)
        have hkept : (next :: found).filter (fun other => !other == slot) = next :: found := by
          refine List.filter_eq_self.mpr fun other hother => ?_
          have hother : other ≠ slot := fun heq => hnew (heq ▸ hother)
          simpa using hother
        rw [List.eraseDups_cons (a := slot), hkept]

/-- Merging neighbors comes to keeping each slot once just when no slot comes back after another. -/
theorem mergeAdjacent_eq_eraseDups : mergeAdjacent found = found.eraseDups ↔ ¬Returns found := by
  refine ⟨fun h hreturns => ?_, mergeAdjacent_of_not_returns⟩
  obtain ⟨slot, other, hne, hsub⟩ := hreturns
  have hchain : [slot, other, slot].IsChain (· ≠ ·) := by simp [hne, hne.symm]
  have hkept := sublist_destutter hchain hsub
  rw [← mergeAdjacent_eq_destutter, h] at hkept
  have hnodup := hkept.nodup (nodup_eraseDups found)
  simp at hnodup

end Work

def drawnMaterials (log : List Command) : List Nat :=
  log.filterMap fun
    | .draw call => call.material
    | _ => none

theorem drawnMaterials_append (log log' : List Command) :
    drawnMaterials (log ++ log') = drawnMaterials log ++ drawnMaterials log' := List.filterMap_append

theorem drawnMaterials_of_isUpload {log : List Command} (h : ∀ command ∈ log, command.isUpload) :
    drawnMaterials log = [] := by
  refine List.filterMap_eq_nil_iff.mpr fun command hcommand => ?_
  have hupload := h command hcommand
  cases command with
  | draw => cases hupload
  | barrier | upload | beginPass | endPass | dispatch => rfl

theorem drawnMaterials_of_actions (actions : List Action) :
    drawnMaterials (actions.map (Action.command images frame)) = actions.filterMap Action.slot? := by
  rw [drawnMaterials, List.filterMap_map]
  refine List.filterMap_congr fun action _ => ?_
  cases action <;> rfl

/-- In its turn a plain pass draws once with each of its slots. -/
theorem Work.IsPlain.drawnMaterials {work : Work} (h : work.IsPlain) (images : RenderImages) (frame : Nat) :
    drawnMaterials (work.during images frame) = work.slots := by
  cases work with
  | casters vertices =>
      rw [Work.during]
      split <;> rfl
  | geometry materials environment slots ambient =>
      rw [Work.during, Frame.drawnMaterials, List.filterMap_map]
      exact List.filterMap_some
  | overlay quads =>
      rw [Work.during]
      split <;> rfl
  | compute width height => rfl
  | actions before during =>
      have hbefore := drawnMaterials_of_isUpload (h.before images frame)
      rw [Work.before, drawnMaterials_of_actions] at hbefore
      rw [Work.during, drawnMaterials_of_actions, slots, List.filterMap_append, hbefore, List.nil_append]

theorem Sections.drawnMaterials {passes : List FramePass} {lists : List (List ImageBarrier)} {log : List Command}
    (h : Sections images frame passes lists log) (hplain : ∀ pass ∈ passes, pass.work.IsPlain) :
    drawnMaterials log = passes.flatMap (·.work.slots) := by
  induction h with
  | nil => rfl
  | @cons passes lists rest pass barriers _ _ ih =>
      obtain ⟨hpass, hrest⟩ := List.forall_mem_cons.mp hplain
      have hbarriers : Frame.drawnMaterials (if barriers = [] then [] else [.barrier barriers]) = [] := by
        split <;> rfl
      have hwork := hpass.drawnMaterials images frame
      calc Frame.drawnMaterials ((if barriers = [] then [] else [.barrier barriers]) ++
            .beginPass pass.name :: (pass.work.during images frame ++ .endPass :: rest))
          = Frame.drawnMaterials (pass.work.during images frame ++ .endPass :: rest) := by
            rw [drawnMaterials_append, hbarriers, List.nil_append]
            rfl
        _ = pass.work.slots ++ Frame.drawnMaterials rest := by
            rw [drawnMaterials_append, hwork]
            rfl
        _ = (pass :: passes).flatMap (·.work.slots) := by rw [ih hrest, List.flatMap_cons]

theorem FrameGraph.Ready.drawnMaterials {g : FrameGraph} {passes : List FramePass} (h : g.Ready passes)
    {log : List Command} (hlog : IsFrame images frame passes g.barriers log) :
    drawnMaterials log = passes.flatMap (·.work.slots) := by
  obtain ⟨uploads, sections, rfl, _, huploads, hsections⟩ := hlog
  rw [drawnMaterials_append, drawnMaterials_of_isUpload huploads, List.nil_append, hsections.drawnMaterials h.plain]

namespace Work

variable {e e' : Engine} {name : String} {materials : List String} {environment : Option String} {slots : List Nat}
  {ambient : Option Nat} {work : Work}

/-- After a setup that went well, a pass has the slots its materials were found in, with neighbors merged. -/
theorem setup_geometry (he : e.Settled)
    (h : (geometry materials environment slots ambient).setup name e = (.ok (), work, e')) :
    List.Forall₂ (fun path slot => e'.Holds .materials (.ofPath path) slot) materials
        (e.loadPaths .materials materials).1 ∧
      work.slots = mergeAdjacent (e.loadPaths .materials materials).1 := by
  have hcontinues := e.continues_loadPaths .materials materials
  rw [setup] at h
  rcases hload : e.loadPaths .materials materials with ⟨found, cause, e₁⟩
  rw [hload] at h hcontinues
  cases cause with
  | some cause => cases h
  | none =>
      have he₁ := (hcontinues.growsTo he).settled he
      have hambient := continues_findAmbient environment e₁
      dsimp only at h
      split at h
      · cases h
      next ambient' e₂ hcube =>
        rw [hcube] at hambient
        cases h
        have hrest := hambient.trans (continues_noteResolved (mergeAdjacent found) ambient' e₂)
        have hkeeps := (hrest.growsTo he₁).preserves he₁
        exact ⟨(he.loadPaths hload).imp fun path slot hheld => hkeeps hheld, rfl⟩

end Work

/-- A pass that was set up draws, in every frame, with the slots its materials were found in, each run of equal ones
merged. Each slot is drawn with, but only once, and in the order of first use, just when none returns after another. -/
theorem drawn_once_unless_returning {e e' : Engine} (he : e.Settled) {name : String} {materials : List String}
    {environment : Option String} {slots : List Nat} {ambient : Option Nat} {work : Work}
    (hsetup : (Work.geometry materials environment slots ambient).setup name e = (.ok (), work, e')) :
    ∃ found, (e.loadPaths .materials materials).1 = found ∧
      List.Forall₂ (fun path slot => e'.Holds .materials (.ofPath path) slot) materials found ∧
      work.slots = found.destutter (· ≠ ·) ∧ (∀ slot, slot ∈ work.slots ↔ slot ∈ found) ∧
      (work.slots = found.eraseDups ↔ ¬Returns found) ∧
      ∀ (g : FrameGraph) (passes : List FramePass), g.Ready passes → ∀ engines : List Engine,
        ∃ logs last, FrameGraph.recordEach engines g = .ok (logs, last) ∧ logs.length = engines.length ∧
          ∀ log ∈ logs, ∀ front pass back, passes = front ++ pass :: back → pass.work = work →
            drawnMaterials log = front.flatMap (·.work.slots) ++ work.slots ++ back.flatMap (·.work.slots) := by
  obtain ⟨hfound, hslots⟩ := Work.setup_geometry he hsetup
  refine ⟨_, rfl, hfound, hslots.trans (Work.mergeAdjacent_eq_destutter _), fun slot => ?_, ?_, ?_⟩
  · rw [hslots]
    exact Work.mem_mergeAdjacent
  · rw [hslots]
    exact Work.mergeAdjacent_eq_eraseDups
  · intro g passes hready engines
    obtain ⟨logs, hrecord, hlength, hframes⟩ := hready.recordEach engines
    refine ⟨logs, _, hrecord, hlength, fun log hlog front pass back hpasses hwork => ?_⟩
    obtain ⟨k, hk⟩ := List.mem_iff_getElem?.mp hlog
    rw [hready.drawnMaterials (hframes k log hk), hpasses, List.flatMap_append, List.flatMap_cons, hwork,
      List.append_assoc]

def paintEngine : Engine :=
  .ofServices { pixelServices with assets := (pixelServices.assets.insertBytes "sky.json" wallFile).2 }

def paintFrame (materials : List String) : FrameGraph := .standard {} { materials := materials }

def paintPasses (materials : List String) (work : Work) : List FramePass :=
  [FramePass.shadowMap ⟨0⟩ cubeVertices] ++ { FramePass.geometry ⟨0⟩ ⟨1⟩ materials none with work := work } ::
    [FramePass.ui ⟨2⟩ 0, FramePass.tonemap ⟨1⟩ ⟨2⟩ ⟨3⟩ none 1280 720]

theorem paintFrame_isPlain (materials : List String) :
    ∀ pass ∈ (paintFrame materials).graph.passes.toList, pass.work.IsPlain := by
  have hpasses : ∀ pass ∈ paintPasses materials (.geometry materials none [] none), ∀ before during,
      pass.work ≠ .actions before during := by
    simp [paintPasses, FramePass.shadowMap, FramePass.ui, FramePass.tonemap]
  exact fun pass hpass => Work.isPlain_of_ne_actions (hpasses pass hpass)

theorem setupPasses_paintFrame {materials : List String} {e e' : Engine} {work : Work}
    (h : (Work.geometry materials none [] none).setup "opaque" e = (.ok (), work, e')) :
    FrameGraph.setupPasses (paintFrame materials).graph.passes.toList e =
      (.ok (), paintPasses materials work, e') := by
  have hpasses : (paintFrame materials).graph.passes.toList =
      paintPasses materials (.geometry materials none [] none) := rfl
  rw [hpasses, paintPasses, List.singleton_append, FrameGraph.setupPasses]
  dsimp only [FramePass.shadowMap, Work.setup]
  rw [FrameGraph.setupPasses]
  dsimp only [FramePass.geometry]
  rw [h]
  rfl

theorem ready_paintFrame {materials : List String} {e e₁ e₂ : Engine} {work : Work} {g : FrameGraph}
    (hsetup : (Work.geometry materials none [] none).setup "opaque" e = (.ok (), work, e₁))
    (hbuild : (paintFrame materials).build e = (.ok (), g, e₂))
    (horder : g.order = [⟨0, 0⟩, ⟨1, 0⟩, ⟨2, 0⟩, ⟨3, 0⟩]) : g.Ready (paintPasses materials work) := by
  obtain ⟨passes, _, hpasses, hschedule⟩ := FrameGraph.of_build hbuild
  rw [setupPasses_paintFrame hsetup] at hpasses
  cases hpasses
  obtain ⟨-, hgraph, -, -⟩ := FrameGraph.of_schedulePasses hschedule
  obtain ⟨scheduled, hready⟩ := FrameGraph.ready_of_build (paintFrame_isPlain materials) hbuild
  have hmap := hready.order
  rw [horder, hgraph] at hmap
  have hall : (paintPasses materials work).map Except.ok =
      scheduled.map (Except.ok : FramePass → Except GraphError FramePass) := hmap
  have hinjective : Function.Injective (Except.ok : FramePass → Except GraphError FramePass) :=
    fun _ _ => Except.ok.inj
  rwa [hinjective.list_map hall]

def paints : List String := ["wall.json", "gate.json", "sky.json"]

theorem drawn_once_unless_returning_paints : ∃ work e' g e passes,
    (Work.geometry paints none [] none).setup "opaque" paintEngine = (.ok (), work, e') ∧ work.slots = [0, 1] ∧
    (paintFrame paints).build paintEngine = (.ok (), g, e) ∧ g.Ready passes ∧
    ∃ logs last, FrameGraph.recordEach [e, e] g = .ok (logs, last) ∧ logs.length = 2 ∧
      ∀ log ∈ logs, drawnMaterials log = [0, 1] := by
  have hset : ((Work.geometry paints none [] none).setup "opaque" paintEngine).1.toOption = some () ∧
      ((Work.geometry paints none [] none).setup "opaque" paintEngine).2.1.slots = [0, 1] := by decide +kernel
  have hmade : ((paintFrame paints).build paintEngine).1.toOption = some () ∧
      ((paintFrame paints).build paintEngine).2.1.order = [⟨0, 0⟩, ⟨1, 0⟩, ⟨2, 0⟩, ⟨3, 0⟩] := by decide +kernel
  rcases hsetup : (Work.geometry paints none [] none).setup "opaque" paintEngine with ⟨answer, work, e'⟩
  rw [hsetup] at hset
  obtain ⟨hset, hslots⟩ := hset
  obtain rfl : answer = .ok () := eq_ok_of_toOption hset
  rcases hbuild : (paintFrame paints).build paintEngine with ⟨answer, g, e⟩
  rw [hbuild] at hmade
  obtain ⟨hok, horder⟩ := hmade
  obtain rfl : answer = .ok () := eq_ok_of_toOption hok
  have hready := ready_paintFrame hsetup hbuild horder
  obtain ⟨found, -, -, -, -, -, hframes⟩ := drawn_once_unless_returning (Engine.settled_ofServices _) hsetup
  obtain ⟨logs, last, hrecord, hlength, hdrawn⟩ := hframes g _ hready [e, e]
  refine ⟨work, e', g, e, _, rfl, hslots, rfl, hready, logs, last, hrecord, hlength, fun log hlog => ?_⟩
  rw [hdrawn log hlog _ _ _ rfl rfl, hslots]
  rfl

def repaints : List String := ["wall.json", "sky.json", "wall.json"]

/-- There are two slots and three draws. -/
theorem returning_material_drawn_again : ∃ g e log, (paintFrame repaints).build paintEngine = (.ok (), g, e) ∧
    g.graph.passes.toList.map (·.work.slots) = [[], [0, 1, 0], [], []] ∧
    (g.record e).1 = .ok log ∧ drawnMaterials log = [0, 1, 0] := by
  have hmade : ((paintFrame repaints).build paintEngine).1.toOption = some () ∧
      ((paintFrame repaints).build paintEngine).2.1.graph.passes.toList.map (·.work.slots) =
        [[], [0, 1, 0], [], []] ∧
      (((paintFrame repaints).build paintEngine).2.1.record
        ((paintFrame repaints).build paintEngine).2.2).1.toOption.map drawnMaterials = some [0, 1, 0] := by
    decide +kernel
  rcases hbuild : (paintFrame repaints).build paintEngine with ⟨answer, g, e⟩
  rw [hbuild] at hmade
  obtain ⟨hok, hslots, hdraws⟩ := hmade
  obtain rfl : answer = .ok () := eq_ok_of_toOption hok
  obtain ⟨log, hsome, hdrawn⟩ := Option.map_eq_some_iff.mp hdraws
  exact ⟨g, e, log, rfl, hslots, eq_ok_of_toOption hsome, hdrawn⟩

end FrameEngine.Frame
