import FrameEngine.Proofs.Frame.Replay
import Mathlib.Data.List.Basic

namespace FrameEngine.Frame

open FrameEngine.Graph

section Images

variable {images : RenderImages} {image : ImageHandle}

theorem get?_create (h : (images.get? image).isSome) (description : ImageDescription) :
    (images.create description).2.get? image = images.get? image := by
  rw [RenderImages.get?, Option.isSome_map] at h
  rw [RenderImages.get?, RenderImages.get?, RenderImages.create, List.find?_append, Option.or_of_isSome h]

theorem aspects_aspectTable (images : RenderImages) (image : ImageHandle) :
    images.aspectTable.aspects image = ((images.get? image).map (·.aspects)).getD .color := by
  rw [AspectTable.aspects, RenderImages.aspectTable, RenderImages.get?, List.find?_map, Option.map_map,
    Option.map_map]
  rfl

theorem aspects_create (h : (images.get? image).isSome) (description : ImageDescription) :
    (images.create description).2.aspectTable.aspects image = images.aspectTable.aspects image := by
  rw [aspects_aspectTable, aspects_aspectTable, get?_create h]

theorem readBarriers_congr {aspects aspects' : AspectTable} {reads : List Usage}
    (h : ∀ read ∈ reads, aspects.aspects read.image = aspects'.aspects read.image) (seen : List ImageHandle)
    (states : ImageStates) :
    ImageStates.readBarriers aspects reads seen states = ImageStates.readBarriers aspects' reads seen states := by
  induction reads generalizing seen states with
  | nil => rfl
  | cons read reads ih =>
      obtain ⟨hread, hreads⟩ := List.forall_mem_cons.mp h
      simp only [ImageStates.readBarriers, hread, ih hreads]

end Images

inductive Event
  | createImage
  | addPass
  | importImage
  | setOutput
  | build (answer : Except GraphError Unit)
  | record (answer : Except GraphError (List Command))

namespace Event

def decidesBuilt : Event → Bool
  | .addPass | .importImage | .build _ => true
  | .createImage | .setOutput | .record _ => false

def isRecorded : Event → Bool
  | .record (.ok _) => true
  | _ => false

end Event

namespace FrameGraph

/-- The calls of a new graph, the last one first, and the graph after them. Passes read images that are there. -/
inductive History : List Event → FrameGraph → Prop
  | new : History [] {}
  | createImage {events g} (h : History events g) (description : ImageDescription) :
      History (.createImage :: events) (g.createImage description).2
  | addPass {events g} (h : History events g) (pass : FramePass)
      (hreads : ∀ read ∈ pass.io.reads, (g.images.get? read.image).isSome) :
      History (.addPass :: events) (g.addPass pass).2
  | importImage {events g} (h : History events g) (use : Usage) :
      History (.importImage :: events) (g.importImage use)
  | setOutput {events g} (h : History events g) (image : ImageHandle) :
      History (.setOutput :: events) (g.setOutput image)
  | build {events g} (h : History events g) (e : Engine) :
      History (.build (g.build e).1 :: events) (g.build e).2.1
  | record {events g} (h : History events g) (e : Engine) :
      History (.record (g.record e).1 :: events) (g.record e).2.1

variable {g : FrameGraph} {events : List Event}

theorem barriersFrom_congr {aspects aspects' : AspectTable}
    (h : ∀ pass ∈ g.graph.passes.toList, ∀ read ∈ pass.io.reads,
      aspects.aspects read.image = aspects'.aspects read.image)
    (order : List PassId) (states : ImageStates) :
    g.graph.barriersFrom aspects order states = g.graph.barriersFrom aspects' order states := by
  induction order generalizing states with
  | nil => rfl
  | cons id order ih =>
      cases hpass : g.graph.pass id with
      | error cause => simp only [PassGraph.barriersFrom, hpass, bind, Except.bind]
      | ok pass =>
          have hreads := readBarriers_congr (h pass (pass_mem hpass)) [] states
          simp only [PassGraph.barriersFrom_cons hpass, ImageStates.passBarriers, hreads, ih]

/-- What is kept of a build is what the passes, imports and images there are now would give. -/
structure Current (g : FrameGraph) : Prop where
  reads : ∀ pass ∈ g.graph.passes.toList, ∀ read ∈ pass.io.reads, (g.images.get? read.image).isSome
  order : g.built = true → g.graph.solve = .ok g.order
  barriers : g.built = true → g.graph.barriers g.images.aspectTable g.order = .ok g.barriers

theorem current_new : Current {} where
  reads pass h := by cases h
  order h := by cases h
  barriers h := by cases h

theorem Current.createImage (h : g.Current) (description : ImageDescription) :
    (g.createImage description).2.Current where
  reads pass hpass read hread := by
    have himage := h.reads pass hpass read hread
    have hkept : (g.createImage description).2.images.get? read.image = g.images.get? read.image :=
      get?_create himage description
    rw [hkept]
    exact himage
  order := h.order
  barriers hbuilt := by
    refine Eq.trans ?_ (h.barriers hbuilt)
    refine barriersFrom_congr (fun pass hpass read hread => ?_) g.order _
    exact aspects_create (h.reads pass hpass read hread) description

theorem Current.addPass (h : g.Current) {pass : FramePass}
    (hreads : ∀ read ∈ pass.io.reads, (g.images.get? read.image).isSome) : (g.addPass pass).2.Current where
  reads other hother := by
    have hmem : other ∈ g.graph.passes.toList ++ [pass] := by
      rw [← Array.toList_push]
      exact hother
    rcases List.mem_append.mp hmem with hmem | hmem
    · exact h.reads other hmem
    · rw [List.mem_singleton.mp hmem]
      exact hreads
  order hbuilt := by cases hbuilt
  barriers hbuilt := by cases hbuilt

theorem Current.importImage (h : g.Current) (use : Usage) : (g.importImage use).Current where
  reads := h.reads
  order hbuilt := by cases hbuilt
  barriers hbuilt := by cases hbuilt

theorem map_io_setupPasses (passes : List FramePass) (e : Engine) :
    (setupPasses passes e).2.1.map (·.io) = passes.map (·.io) := by
  induction passes generalizing e with
  | nil => rfl
  | cons pass passes ih =>
      rw [setupPasses]
      split
      · rfl
      · exact congrArg (pass.io :: ·) (ih _)

theorem solve_of_solveNoting {ω : Type} {g : PassGraph ω} {journal journal' : Journal} {order : List PassId}
    (h : g.solveNoting journal = (.ok order, journal')) : g.solve = .ok order := by
  rw [PassGraph.solveNoting] at h
  split at h
  next found hsolve =>
    cases h
    exact hsolve
  · cases h

/-- What scheduling can do to a graph that is not built: it fails and changes nothing, or the graph is built. -/
theorem current_schedulePasses (h : g.Current) (hbuilt : g.built = false) (e : Engine) :
    (g.schedulePasses e).2.1.Current ∧
      ((g.schedulePasses e).2.1.built = true ↔ (g.schedulePasses e).1 = .ok ()) ∧
      (g.schedulePasses e).2.1.frames = g.frames := by
  rw [schedulePasses]
  split
  · exact ⟨h, by simp [hbuilt], rfl⟩
  next order journal hsolve =>
    dsimp only
    split
    · exact ⟨h, by simp [hbuilt], rfl⟩
    next barriers hbarriers =>
      have hcurrent : Current { g with order := order, barriers := barriers, built := true } :=
        ⟨h.reads, fun _ => solve_of_solveNoting hsolve, fun _ => hbarriers⟩
      exact ⟨hcurrent, by simp, rfl⟩

theorem Current.build (h : g.Current) (e : Engine) :
    (g.build e).2.1.Current ∧ ((g.build e).2.1.built = true ↔ (g.build e).1 = .ok ()) ∧
      (g.build e).2.1.frames = g.frames := by
  have hio := map_io_setupPasses g.graph.passes.toList e
  rw [FrameGraph.build]
  generalize setupPasses g.graph.passes.toList e = made at hio
  obtain ⟨result, passes, e'⟩ := made
  have hcurrent :
      Current { g with graph := { g.graph with passes := passes.toArray }, built := false } := by
    refine ⟨fun pass hpass => ?_, fun hbuilt => ?_, fun hbuilt => ?_⟩
    · obtain ⟨before, hbefore, heq⟩ : ∃ before ∈ g.graph.passes.toList, before.io = pass.io := by
        have hmem := List.mem_map_of_mem (f := (·.io)) hpass
        rw [hio] at hmem
        exact List.mem_map.mp hmem
      rw [← heq]
      exact h.reads before hbefore
    · cases hbuilt
    · cases hbuilt
  cases result with
  | error cause => exact ⟨hcurrent, by simp, rfl⟩
  | ok _ => exact current_schedulePasses hcurrent rfl e'

theorem Current.record (h : g.Current) (hbuilt : g.built = true) (e : Engine) :
    ∃ log, g.record e = (.ok log, { g with frames := g.frames + 1 }, e.note (.recorded g.frames)) := by
  obtain ⟨passes, hpasses⟩ := passes_of_barriersFrom (h.barriers hbuilt)
  refine ⟨g.frameCommands passes, ?_⟩
  rw [FrameGraph.record, if_pos hbuilt, mapM_of_map hpasses]

theorem record_notBuilt (hbuilt : g.built = false) (e : Engine) : g.record e = (.error .notBuilt, g, e) := by
  rw [FrameGraph.record, if_neg (by simp [hbuilt])]

theorem Current.recorded (h : g.Current) (e : Engine) : (g.record e).2.1.Current := by
  cases hbuilt : g.built with
  | false =>
      rw [record_notBuilt hbuilt]
      exact h
  | true =>
      obtain ⟨log, hlog⟩ := h.record hbuilt e
      rw [hlog]
      exact ⟨h.reads, h.order, h.barriers⟩

theorem History.current (h : History events g) : g.Current := by
  induction h with
  | new => exact current_new
  | createImage _ description ih => exact ih.createImage description
  | addPass _ pass hreads ih => exact ih.addPass hreads
  | importImage _ use ih => exact ih.importImage use
  | setOutput _ image ih => exact ⟨ih.reads, ih.order, ih.barriers⟩
  | build _ e ih => exact (ih.build e).1
  | record _ e ih => exact ih.recorded e

theorem History.built_iff (h : History events g) :
    g.built = true ↔ events.find? Event.decidesBuilt = some (.build (.ok ())) := by
  induction h with
  | new => simp
  | createImage _ description ih => exact ih
  | addPass _ pass hreads ih => simp [FrameGraph.addPass, Event.decidesBuilt]
  | importImage _ use ih => simp [FrameGraph.importImage, Event.decidesBuilt]
  | setOutput _ image ih => exact ih
  | build h e ih =>
      rw [(h.current.build e).2.1]
      simp [Event.decidesBuilt]
  | @record _ g h e ih =>
      have hkept : (g.record e).2.1.built = g.built := by
        cases hbuilt : g.built with
        | false => rw [record_notBuilt hbuilt, hbuilt]
        | true =>
            obtain ⟨log, hlog⟩ := h.current.record hbuilt e
            rw [hlog]
            exact hbuilt
      rw [hkept]
      exact ih

theorem History.frames_eq (h : History events g) : g.frames = events.countP Event.isRecorded := by
  induction h with
  | new => rfl
  | createImage _ _ ih | addPass _ _ _ ih | importImage _ _ ih | setOutput _ _ ih => exact ih
  | build h e ih =>
      rw [(h.current.build e).2.2]
      exact ih
  | @record _ g h e ih =>
      cases hbuilt : g.built with
      | false =>
          rw [record_notBuilt hbuilt]
          exact ih
      | true =>
          obtain ⟨log, hlog⟩ := h.current.record hbuilt e
          rw [hlog, List.countP_cons_of_pos rfl, ← ih]

/-- Whatever was called of a new graph before: it is built if the last call that decides so was a build that went well.
Then its schedule is the one of the present passes, imports and images, and it records; otherwise it is refused as not
built and nothing changes. It counts the frames that were recorded. -/
theorem schedule_current {events : List Event} {g : FrameGraph} (h : History events g) :
    (g.built = true ↔ events.find? Event.decidesBuilt = some (.build (.ok ()))) ∧
      (g.built = true → ∃ order barriers, g.graph.solve = .ok order ∧
        g.graph.barriers g.images.aspectTable order = .ok barriers ∧ barriers.length = order.length ∧
        g.schedule = order.zip barriers) ∧
      (g.built = true → ∀ e, ∃ log, g.record e =
        (.ok log, { g with frames := g.frames + 1 }, e.note (.recorded g.frames))) ∧
      (g.built = false → ∀ e, g.record e = (.error .notBuilt, g, e)) ∧
      (∀ e index generation, (g.record e).1 ≠ .error (.stalePass index generation)) ∧
      g.frames = events.countP Event.isRecorded := by
  have hcurrent := h.current
  refine ⟨h.built_iff, fun hbuilt => ?_, hcurrent.record, record_notBuilt, ?_, h.frames_eq⟩
  · obtain ⟨passes, hpasses⟩ := passes_of_barriersFrom (hcurrent.barriers hbuilt)
    exact ⟨_, _, hcurrent.order hbuilt, hcurrent.barriers hbuilt,
      (PassGraph.complete_of_barriers hpasses (hcurrent.barriers hbuilt)).1, rfl⟩
  · intro e index generation hstale
    cases hbuilt : g.built with
    | false =>
        rw [record_notBuilt hbuilt] at hstale
        cases hstale
    | true =>
        obtain ⟨log, hlog⟩ := hcurrent.record hbuilt e
        rw [hlog] at hstale
        cases hstale

def blurredUi : FrameGraph :=
  let g := (({} : FrameGraph).createImage ⟨"ui", outputFormat, 16, 16⟩).2
  let g := (g.createImage ⟨"bloom", outputFormat, 8, 8⟩).2
  ((g.addPass (.ui ⟨0⟩ 2)).2.addPass (.blur ⟨0⟩ ⟨1⟩ 8 8)).2

theorem history_blurredUi : History [.addPass, .addPass, .createImage, .createImage] blurredUi := by
  refine (((History.new.createImage _).createImage _).addPass _ fun read hread => ?_).addPass _ fun read hread => ?_
  · cases hread
  · obtain rfl := List.mem_singleton.mp hread
    rfl

/-- The graph is built and records a frame, an image is created, and another frame is recorded. -/
theorem schedule_current_blurredUi :
    ∃ events g, History events g ∧ events.length = 8 ∧ g.built = true ∧ g.frames = 2 ∧
      ∃ order barriers, g.graph.solve = .ok order ∧ g.graph.barriers g.images.aspectTable order = .ok barriers ∧
        g.schedule = order.zip barriers := by
  have hrecorded := (history_blurredUi.build bareEngine).record bareEngine
  have hlast := (hrecorded.createImage ⟨"hdr", hdrFormat, 8, 8⟩).record bareEngine
  obtain ⟨hbuilt, hschedule, _, _, _, hframes⟩ := schedule_current hlast
  have hready := hbuilt.mpr (by with_unfolding_all rfl)
  obtain ⟨order, barriers, hsolve, hbarriers, _, hzip⟩ := hschedule hready
  exact ⟨_, _, hlast, rfl, hready, hframes.trans (by with_unfolding_all rfl), order, barriers, hsolve, hbarriers,
    hzip⟩

end FrameGraph

end FrameEngine.Frame
