import FrameEngine.Frame.Standard
import FrameEngine.Proofs.Frame.Recording
import Mathlib.Logic.Function.Basic

namespace FrameEngine.Frame

open FrameEngine.Graph

abbrev Layouts := ImageHandle → Option Layout

namespace Layouts

def after (layouts : Layouts) (uses : List Usage) : Layouts :=
  fun image => ((lastUse? uses image).map (·.layout)).or (layouts image)

/-- A barrier moves an image from its old layout, which the image has to be in, to its new one. -/
def barrier? (layouts : Layouts) (b : ImageBarrier) : Option Layouts :=
  if layouts b.image = some b.oldLayout then some (Function.update layouts b.image (some b.newLayout))
  else none

end Layouts

structure Device where
  layouts : Layouts
  upcoming : List FramePass
  writes : List Usage := []

namespace Device

/-- A pass begins if it is the next and each image it reads is in the layout of its first read. -/
def begin? (d : Device) (name : String) : Option Device :=
  match d.upcoming with
  | [] => none
  | pass :: rest =>
      if pass.name = name ∧
          ∀ read ∈ pass.io.reads, d.layouts read.image = (firstUse? pass.io.reads read.image).map (·.layout) then
        some { d with upcoming := rest, writes := pass.io.writes }
      else none

def step? (d : Device) : Command → Option Device
  | .barrier barriers =>
      (barriers.foldlM Layouts.barrier? d.layouts).map fun layouts => { d with layouts := layouts }
  | .beginPass name => d.begin? name
  | .endPass => some { d with layouts := d.layouts.after d.writes, writes := [] }
  | .upload _ _ | .draw _ | .dispatch _ _ _ => some d

def frame? (imports : List Usage) (passes : List FramePass) (layouts : Layouts) (log : List Command) :
    Option Layouts :=
  (log.foldlM step? ⟨layouts.after imports, passes, []⟩).map (·.layouts)

def replay? (imports : List Usage) (passes : List FramePass) (layouts : Layouts)
    (frames : List (List Command)) : Option Layouts :=
  frames.foldlM (frame? imports passes) layouts

end Device

def Agree (layouts : Layouts) (states : ImageStates) : Prop :=
  ∀ image state, states.get? image = some state → layouts image = some state.layout

theorem Agree.after {layouts : Layouts} {states : ImageStates} (h : Agree layouts states)
    (uses : List Usage) : Agree (layouts.after uses) (uses.foldl ImageStates.write states) := by
  intro image state hstate
  rw [ImageStates.get?_foldl_write] at hstate
  rw [Layouts.after]
  cases hlast : lastUse? uses image with
  | none =>
      rw [hlast] at hstate
      exact h image state hstate
  | some use =>
      rw [hlast] at hstate
      cases hstate
      rfl

theorem agree_imports (layouts : Layouts) (imports : List Usage) :
    Agree (layouts.after imports) (ImageStates.ofImports imports) := by
  have hnone : Agree layouts [] := fun image state hstate => by cases hstate
  exact hnone.after imports

theorem nodup_eraseDups {α : Type} [DecidableEq α] (l : List α) : l.eraseDups.Nodup := by
  -- what follows the first item is cut from a shorter list
  induction hn : l.length using Nat.strongRecOn generalizing l with
  | ind n ih =>
      cases l with
      | nil => exact List.nodup_nil
      | cons a l =>
          rw [List.eraseDups_cons, List.nodup_cons, List.mem_eraseDups]
          have hle := List.length_filter_le (fun b => !b == a) l
          exact ⟨by simp, ih _ (by simp at hn; omega) _ rfl⟩

theorem barriers_pass {barriers : List ImageBarrier} {layouts : Layouts}
    (hn : (barriers.map (·.image)).Nodup) (hold : ∀ b ∈ barriers, layouts b.image = some b.oldLayout) :
    ∃ layouts', barriers.foldlM Layouts.barrier? layouts = some layouts' ∧
      (∀ b ∈ barriers, layouts' b.image = some b.newLayout) ∧
      ∀ image, (∀ b ∈ barriers, b.image ≠ image) → layouts' image = layouts image := by
  induction barriers generalizing layouts with
  | nil => exact ⟨layouts, rfl, nofun, fun _ _ => rfl⟩
  | cons b barriers ih =>
      obtain ⟨hfirst, hrest⟩ := List.forall_mem_cons.mp hold
      obtain ⟨hb, hn⟩ := List.nodup_cons.mp hn
      -- the images differ, so the other barriers still find the layouts they require
      have hne (c : ImageBarrier) (hc : c ∈ barriers) : c.image ≠ b.image :=
        fun he => hb (List.mem_map.mpr ⟨c, hc, he⟩)
      have hmoved (c : ImageBarrier) (hc : c ∈ barriers) :
          Function.update layouts b.image (some b.newLayout) c.image = some c.oldLayout := by
        rw [Function.update_of_ne (hne c hc), hrest c hc]
      obtain ⟨layouts', hpass, hnew, hkept⟩ := ih hn hmoved
      refine ⟨layouts', ?_, List.forall_mem_cons.mpr ⟨?_, hnew⟩, fun image himage => ?_⟩
      · rw [List.foldlM_cons, Layouts.barrier?, if_pos hfirst]
        exact hpass
      · rw [hkept _ hne, Function.update_self]
      · obtain ⟨hfirst, hrest⟩ := List.forall_mem_cons.mp himage
        rw [hkept image hrest, Function.update_of_ne hfirst.symm]

/-- The barriers made for a pass bring every image it reads into the layout of its first read. -/
theorem Agree.reads {aspects : AspectTable} {reads : List Usage} {states middle : ImageStates}
    {barriers : List ImageBarrier} {layouts : Layouts} (h : Agree layouts states)
    (hserved : ImageStates.ReadsServed aspects reads [] states barriers middle) :
    ∃ layouts', barriers.foldlM Layouts.barrier? layouts = some layouts' ∧ Agree layouts' middle ∧
      ∀ read ∈ reads, layouts' read.image = (firstUse? reads read.image).map (·.layout) := by
  have hn : (barriers.map (·.image)).Nodup := by
    rw [hserved.images]
    exact nodup_eraseDups _
  have hold (b : ImageBarrier) (hb : b ∈ barriers) : layouts b.image = some b.oldLayout := by
    obtain ⟨read, state, _, hstate, hb'⟩ := hserved.served b hb
    rw [h _ _ hstate, hb']
    rfl
  obtain ⟨layouts', hpass, hnew, hkept⟩ := barriers_pass hn hold
  refine ⟨layouts', hpass, fun image state hstate => ?_, fun read hr => ?_⟩
  · by_cases himage : ∃ b ∈ barriers, b.image = image
    · obtain ⟨b, hb, rfl⟩ := himage
      obtain ⟨_, before, _, hbefore, _⟩ := hserved.served b hb
      rw [hserved.moved b hb before hbefore] at hstate
      cases hstate
      exact hnew b hb
    · have hall (b : ImageBarrier) (hb : b ∈ barriers) : b.image ≠ image := fun he => himage ⟨b, hb, he⟩
      rw [hserved.kept image hall] at hstate
      rw [hkept image hall, h image state hstate]
  · have hm : read.image ∈ barriers.map (·.image) := by
      rw [hserved.images, List.mem_eraseDups]
      simpa using ⟨read, hr, rfl⟩
    obtain ⟨b, hb, himage⟩ := List.mem_map.mp hm
    obtain ⟨first, state, hfirst, _, hb'⟩ := hserved.served b hb
    rw [← himage, hnew b hb, hfirst, hb']
    rfl

theorem foldlM_inert (d : Device) {commands : List Command}
    (h : ∀ command ∈ commands, d.step? command = some d) : commands.foldlM Device.step? d = some d := by
  induction commands with
  | nil => rfl
  | cons command commands ih =>
      obtain ⟨hfirst, hrest⟩ := List.forall_mem_cons.mp h
      rw [List.foldlM_cons, hfirst]
      exact ih hrest

theorem step?_of_isWork (d : Device) {command : Command} (h : command.isWork) : d.step? command = some d := by
  cases command <;> first | rfl | cases h

theorem step?_of_isUpload (d : Device) {command : Command} (h : command.isUpload) :
    d.step? command = some d := by
  cases command <;> first | rfl | cases h

/-- The commands of one pass, with the barriers that were made for it, take the device to the next. -/
theorem pass_replays {aspects : AspectTable} {pass : FramePass} {barriers : List ImageBarrier}
    {states after : ImageStates} {layouts : Layouts} {images : RenderImages} {frame : Nat}
    (hmade : ImageStates.passBarriers aspects pass.io states = .ok (barriers, after))
    (h : Agree layouts states) (hwork : ∀ command ∈ pass.work.during images frame, command.isWork)
    (upcoming : List FramePass) (rest : List Command) :
    ∃ layouts', Agree layouts' after ∧
      ((if barriers = [] then [] else [Command.barrier barriers]) ++
        .beginPass pass.name :: (pass.work.during images frame ++ .endPass :: rest)).foldlM Device.step?
          ⟨layouts, pass :: upcoming, []⟩ = rest.foldlM Device.step? ⟨layouts', upcoming, []⟩ := by
  obtain ⟨middle, hserved, rfl⟩ := passBarriers_ok hmade
  obtain ⟨layouts', hbarriers, hagree, hreads⟩ := h.reads hserved
  refine ⟨layouts'.after pass.io.writes, hagree.after pass.io.writes, ?_⟩
  have hlist : (if barriers = [] then [] else [Command.barrier barriers]).foldlM Device.step?
      (⟨layouts, pass :: upcoming, []⟩ : Device) = some ⟨layouts', pass :: upcoming, []⟩ := by
    split
    next hnil =>
      subst hnil
      cases hbarriers
      rfl
    · rw [List.foldlM_cons, Device.step?, hbarriers]
      rfl
  have hbegin : (⟨layouts', pass :: upcoming, []⟩ : Device).step? (.beginPass pass.name) =
      some ⟨layouts', upcoming, pass.io.writes⟩ := if_pos ⟨rfl, hreads⟩
  have hduring := foldlM_inert ⟨layouts', upcoming, pass.io.writes⟩ fun command hm =>
    step?_of_isWork _ (hwork command hm)
  rw [List.foldlM_append, hlist, Option.bind_eq_bind, Option.bind_some, List.foldlM_cons, hbegin,
    Option.bind_eq_bind, Option.bind_some, List.foldlM_append, hduring, Option.bind_eq_bind, Option.bind_some,
    List.foldlM_cons]
  rfl

theorem sections_replay {g : PassGraph Work} {aspects : AspectTable} {order : List PassId}
    {passes : List FramePass} {lists : List (List ImageBarrier)} {states : ImageStates} {layouts : Layouts}
    {images : RenderImages} {frame : Nat} {log : List Command} (hlog : Sections images frame passes lists log)
    (horder : order.map g.pass = passes.map .ok) (hlists : g.barriersFrom aspects order states = .ok lists)
    (h : Agree layouts states) :
    ∃ layouts', log.foldlM Device.step? (⟨layouts, passes, []⟩ : Device) = some ⟨layouts', [], []⟩ := by
  -- the device agrees with the states that the barriers of the next pass are made from
  induction hlog generalizing order states layouts with
  | nil => exact ⟨layouts, rfl⟩
  | @cons passes lists rest pass barriers hwork _ ih =>
      cases order with
      | nil => cases horder
      | cons id order =>
          obtain ⟨hid, horder⟩ := List.cons.inj horder
          rw [PassGraph.barriersFrom_cons hid] at hlists
          split at hlists
          · cases hlists
          next made after hmade =>
          cases htail : g.barriersFrom aspects order after with
          | error cause =>
              rw [htail] at hlists
              cases hlists
          | ok tail =>
              rw [htail] at hlists
              cases hlists
              obtain ⟨layouts', hagree, hpass⟩ := pass_replays hmade h hwork passes rest
              obtain ⟨last, hlast⟩ := ih horder htail hagree
              exact ⟨last, hpass.trans hlast⟩

theorem frame_replays {g : FrameGraph} {passes : List FramePass} (hg : g.Ready passes) {frame : Nat}
    {log : List Command} (hlog : IsFrame g.images frame passes g.barriers log) (layouts : Layouts) :
    ∃ layouts', Device.frame? g.graph.imports passes layouts log = some layouts' := by
  obtain ⟨uploads, sections, rfl, _, huploads, hsections⟩ := hlog
  obtain ⟨layouts', hreplay⟩ :=
    sections_replay hsections hg.order hg.barriers (agree_imports layouts g.graph.imports)
  refine ⟨layouts', ?_⟩
  rw [Device.frame?, List.foldlM_append,
    foldlM_inert _ fun command hm => step?_of_isUpload _ (huploads command hm), Option.bind_eq_bind,
    Option.bind_some, hreplay]
  rfl

theorem frames_replay {g : FrameGraph} {passes : List FramePass} (hg : g.Ready passes)
    {logs : List (List Command)} (hlogs : ∀ log ∈ logs, ∃ frame, IsFrame g.images frame passes g.barriers log)
    (layouts : Layouts) :
    ∃ layouts', Device.replay? g.graph.imports passes layouts logs = some layouts' := by
  induction logs generalizing layouts with
  | nil => exact ⟨layouts, rfl⟩
  | cons log logs ih =>
      obtain ⟨⟨frame, hlog⟩, hrest⟩ := List.forall_mem_cons.mp hlogs
      obtain ⟨next, hnext⟩ := frame_replays hg hlog layouts
      obtain ⟨last, hlast⟩ := ih hrest next
      refine ⟨last, ?_⟩
      rw [Device.replay?, List.foldlM_cons, hnext]
      exact hlast

/-- A graph that was built from plain passes records any number of frames, each the uploads of all passes
and then the passes of the schedule with their barriers; and a device that checks layouts replays all
frames, whatever layouts it starts from. -/
theorem recorded_frames_replay {g g' : FrameGraph} {e e' : Engine}
    (hplain : ∀ pass ∈ g.graph.passes.toList, pass.work.IsPlain) (hbuild : g.build e = (.ok (), g', e')) :
    ∃ passes : List FramePass, g'.order.map g'.graph.pass = passes.map .ok ∧
      ∀ engines : List Engine, ∃ logs last, FrameGraph.recordEach engines g' = .ok (logs, last) ∧
        logs.length = engines.length ∧
        (∀ k log, logs[k]? = some log → IsFrame g'.images (g'.frames + k) passes g'.barriers log) ∧
        ∀ layouts, ∃ layouts', Device.replay? g'.graph.imports passes layouts logs = some layouts' := by
  obtain ⟨passes, hready⟩ := FrameGraph.ready_of_build hplain hbuild
  refine ⟨passes, hready.order, fun engines => ?_⟩
  obtain ⟨logs, hrecord, hlength, hframes⟩ := hready.recordEach engines
  refine ⟨logs, _, hrecord, hlength, hframes, fun layouts => frames_replay hready (fun log hm => ?_) layouts⟩
  obtain ⟨k, hk⟩ := List.mem_iff_getElem?.mp hm
  exact ⟨_, hframes k log hk⟩

def standardFrame : FrameGraph := .standard { blur := true } { quads := 2 }

def bareEngine : Engine := .ofServices { assets := {}, jobs := { workers := 1, held := [false] } }

theorem standardFrame_isPlain : ∀ pass ∈ standardFrame.graph.passes.toList, pass.work.IsPlain := by
  have hpasses : ∀ pass ∈ standardFrame.graph.passes.toList,
      ∀ before during, pass.work ≠ .actions before during := by
    simp [standardFrame, FrameGraph.standard, FrameGraph.addBloom, FrameGraph.addPass, FrameGraph.createImage,
      PassGraph.add, FramePass.shadowMap, FramePass.geometry, FramePass.ui, FramePass.blur, FramePass.tonemap,
      FrameGraph.setOutput]
  intro pass hm
  exact Work.isPlain_of_ne_actions (hpasses pass hm)

/-- Three frames of the standard frame. -/
theorem recorded_frames_replay_standard :
    ∃ g' e' passes logs last, standardFrame.build bareEngine = (.ok (), g', e') ∧
      g'.orderNames = ["shadow_map", "opaque", "ui", "blur", "tonemap"] ∧
      g'.order.map g'.graph.pass = passes.map .ok ∧
      FrameGraph.recordEach [e', e', e'] g' = .ok (logs, last) ∧ logs.length = 3 ∧
      ∀ layouts, ∃ layouts', Device.replay? g'.graph.imports passes layouts logs = some layouts' := by
  have hok : (standardFrame.build bareEngine).1 = .ok () := by with_unfolding_all rfl
  have hbuild : standardFrame.build bareEngine =
      (.ok (), (standardFrame.build bareEngine).2.1, (standardFrame.build bareEngine).2.2) := Prod.ext hok rfl
  obtain ⟨passes, horder, hframes⟩ := recorded_frames_replay standardFrame_isPlain hbuild
  obtain ⟨logs, last, hrecord, hlength, _, hreplay⟩ := hframes [_, _, _]
  exact ⟨_, _, passes, logs, last, hbuild, by with_unfolding_all rfl, horder, hrecord, hlength, hreplay⟩

end FrameEngine.Frame
