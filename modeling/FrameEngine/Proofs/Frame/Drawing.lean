import FrameEngine.Frame.Standard
import FrameEngine.Proofs.Frame.Recording
import FrameEngine.Proofs.Frame.Setup

namespace FrameEngine

open FrameEngine.Graph FrameEngine.Slots

namespace Engine

variable {e : Engine} {slot : Nat}

/-- What a draw relies on: a material is in its slot, and shaders find textures at the indices of its maps. -/
def Drawable (e : Engine) (slot : Nat) : Prop :=
  ∃ s id material, s.val = slot ∧ e.materials.states.get s = .resident id ∧
    e.materials.contents.get s = some material ∧ ∀ index ∈ material.packed.textures, LiveIndex e.textures index

theorem Settled.drawable (he : e.Settled) (hl : e.Linked) {id : Asset.AssetId} (h : e.Holds .materials id slot) :
    e.Drawable slot := by
  obtain ⟨s, holder, hs, hserves⟩ := h
  obtain ⟨trace, hrun⟩ := he.materials
  obtain ⟨material, hmaterial⟩ := Option.isSome_iff_exists.mp
    ((((sound_start _).run hrun).filled s).mpr (.inl ⟨holder, hserves.resident⟩))
  exact ⟨s, holder, material, hs, hserves.resident, hmaterial, hl s material hmaterial⟩

end Engine

namespace Frame

variable {images : RenderImages} {frame slot : Nat} {call : DrawCall}

namespace Work

variable {work : Work}

theorem slot_of_action {action : Action} (h : action.command images frame = .draw call)
    (hslot : call.material = some slot) : action.slot? = some slot := by
  cases action with
  | draw call' =>
      cases h
      exact hslot
  | dispatch | upload | frame | images => cases h

theorem slot_of_before (h : .draw call ∈ work.before images frame) (hslot : call.material = some slot) :
    slot ∈ work.slots := by
  cases work with
  | overlay quads =>
      rw [before] at h
      split at h <;> simp at h
  | actions before during =>
      obtain ⟨action, haction, hdraw⟩ := List.mem_map.mp h
      exact List.mem_filterMap.mpr ⟨action, List.mem_append_left during haction, slot_of_action hdraw hslot⟩
  | casters | geometry | compute => simp [before] at h

theorem slot_of_during (h : .draw call ∈ work.during images frame) (hslot : call.material = some slot) :
    slot ∈ work.slots := by
  cases work with
  | casters vertices =>
      rw [during] at h
      split at h
      · cases h
      · cases List.mem_singleton.mp h
        cases hslot
  | geometry materials environment slots ambient =>
      obtain ⟨slot', hmem, hdraw⟩ := List.mem_map.mp h
      cases hdraw
      cases hslot
      exact hmem
  | overlay quads =>
      rw [during] at h
      split at h
      · cases h
      · cases List.mem_singleton.mp h
        cases hslot
  | compute width height => cases List.mem_singleton.mp h
  | actions before during =>
      obtain ⟨action, haction, hdraw⟩ := List.mem_map.mp h
      exact List.mem_filterMap.mpr ⟨action, List.mem_append_right before haction, slot_of_action hdraw hslot⟩

end Work

theorem slot_of_passCommands {pass : FramePass} {barriers : List ImageBarrier}
    (h : .draw call ∈ FrameGraph.passCommands images frame pass barriers) (hslot : call.material = some slot) :
    slot ∈ pass.work.slots := by
  have hduring : .draw call ∈ pass.work.during images frame := by
    rw [FrameGraph.passCommands] at h
    split at h <;> simpa using h
  exact Work.slot_of_during hduring hslot

namespace FrameGraph

variable {e e' : Engine} {g : FrameGraph} {log : List Command}

theorem slot_of_frameCommands {passes : List FramePass} (h : .draw call ∈ g.frameCommands passes)
    (hslot : call.material = some slot) : ∃ pass ∈ passes, slot ∈ pass.work.slots := by
  rcases List.mem_append.mp h with hbefore | hduring
  · obtain ⟨pass, hpass, hdraw⟩ := List.mem_flatMap.mp hbefore
    exact ⟨pass, hpass, Work.slot_of_before hdraw hslot⟩
  · obtain ⟨commands, hcommands, hdraw⟩ := List.mem_flatten.mp hduring
    rw [← List.map_uncurry_zip_eq_zipWith] at hcommands
    obtain ⟨⟨pass, barriers⟩, hpair, rfl⟩ := List.mem_map.mp hcommands
    exact ⟨pass, (List.of_mem_zip hpair).1, slot_of_passCommands hdraw hslot⟩

theorem record_keeps (g : FrameGraph) (e : Engine) :
    (g.record e).2.1.graph = g.graph ∧ (g.record e).2.1.images = g.images ∧ (g.record e).2.1.order = g.order ∧
      (g.record e).2.1.barriers = g.barriers := by
  rw [record]
  split
  · split <;> exact ⟨rfl, rfl, rfl, rfl⟩
  · exact ⟨rfl, rfl, rfl, rfl⟩

/-- Draws of a frame are those of the graph's passes. -/
theorem slot_of_record (h : (g.record e).1 = .ok log) (hdraw : .draw call ∈ log) (hslot : call.material = some slot) :
    ∃ pass ∈ g.graph.passes.toList, slot ∈ pass.work.slots := by
  rw [record] at h
  split at h
  · split at h
    · cases h
    next passes hpasses =>
      cases h
      obtain ⟨pass, hpass, hslots⟩ := slot_of_frameCommands hdraw hslot
      have hfound : .ok pass ∈ g.order.map g.graph.pass := by
        rw [map_of_mapM hpasses]
        exact List.mem_map_of_mem hpass
      obtain ⟨id, _, hid⟩ := List.mem_map.mp hfound
      exact ⟨pass, pass_mem hid, hslots⟩
  · cases h

end FrameGraph

inductive IsStandard : FramePass → Prop
  | shadowMap (target) (vertices) : IsStandard (.shadowMap target vertices)
  | geometry (shadow) (hdr) (materials) (environment) : IsStandard (.geometry shadow hdr materials environment)
  | ui (target) (quads) : IsStandard (.ui target quads)
  | blur (hdr) (bloom) (width) (height) : IsStandard (.blur hdr bloom width height)
  | tonemap (hdr) (ui) (output) (bloom) (width) (height) : IsStandard (.tonemap hdr ui output bloom width height)

/-- An engine from which nothing was ever unloaded and a frame graph, after any calls: of the engine, which may load
assets in between and be given others, and of the graph, which may be built and record frames at any time. -/
inductive Staged : Engine → FrameGraph → Prop
  | new {s : Services} {e} (h : (Engine.ofServices s).Continues e) : Staged e {}
  | engine {e e' g} (h : Staged e g) (hcontinues : e.Continues e') : Staged e' g
  | createImage {e g} (h : Staged e g) (description : ImageDescription) : Staged e (g.createImage description).2
  | addPass {e g} (h : Staged e g) {pass : FramePass} (hpass : IsStandard pass) : Staged e (g.addPass pass).2
  | importImage {e g} (h : Staged e g) (use : Usage) : Staged e (g.importImage use)
  | setOutput {e g} (h : Staged e g) (image : ImageHandle) : Staged e (g.setOutput image)
  | build {e g} (h : Staged e g) : Staged (g.build e).2.2 (g.build e).2.1
  | record {e g} (h : Staged e g) : Staged (g.record e).2.2 (g.record e).2.1

namespace Staged

open FrameGraph

variable {e : Engine} {g : FrameGraph}

structure Sound (e : Engine) (g : FrameGraph) : Prop where
  settled : e.Settled
  linked : e.Linked
  holds : HoldsSlots e g.graph.passes.toList

theorem Sound.continues {e' : Engine} (h : Sound e g) (hcontinues : e.Continues e') : Sound e' g where
  settled := (hcontinues.growsTo h.settled).settled h.settled
  linked := hcontinues.linked h.settled h.linked
  holds := h.holds.keep ((hcontinues.growsTo h.settled).preserves h.settled)

theorem slots_of_isStandard {pass : FramePass} (h : IsStandard pass) : pass.work.slots = [] := by
  cases h <;> rfl

theorem Sound.addPass (h : Sound e g) {pass : FramePass} (hpass : IsStandard pass) : Sound e (g.addPass pass).2 where
  settled := h.settled
  linked := h.linked
  holds other hother := by
    have hmem : other ∈ g.graph.passes.toList ++ [pass] := by
      rw [← Array.toList_push]
      exact hother
    rcases List.mem_append.mp hmem with hold | hnew
    · exact h.holds other hold
    -- slots come with the first setup
    · rw [List.mem_singleton.mp hnew, slots_of_isStandard hpass]
      simp

theorem Sound.build (h : Sound e g) : Sound (g.build e).2.2 (g.build e).2.1 where
  settled := (h.continues (continues_build g e)).settled
  linked := (h.continues (continues_build g e)).linked
  holds := h.holds.build h.settled

theorem sound (h : Staged e g) : Sound e g := by
  induction h with
  | @new s e hcontinues =>
      have hstart : Sound (Engine.ofServices s) {} :=
        ⟨Engine.settled_ofServices s, Engine.linked_ofServices s, fun pass hpass => by cases hpass⟩
      exact hstart.continues hcontinues
  | engine _ hcontinues ih => exact ih.continues hcontinues
  | createImage _ _ ih | importImage _ _ ih | setOutput _ _ ih => exact ⟨ih.settled, ih.linked, ih.holds⟩
  | addPass _ hpass ih => exact ih.addPass hpass
  | build _ ih => exact ih.build
  | @record e g _ ih =>
      obtain ⟨hsettled, hlinked, hholds⟩ := ih.continues (continues_record g e)
      exact ⟨hsettled, hlinked, by rwa [(record_keeps g e).1]⟩

end Staged

/-- Whatever was loaded, built and recorded before, and whatever failed: as long as nothing was unloaded, every draw of
a frame finds its material when it is recorded, and shaders find a texture at each of its indices that has a map. -/
theorem recorded_draws_live {e : Engine} {g : FrameGraph} (h : Staged e g) {log : List Command}
    (hlog : (g.record e).1 = .ok log) {call : DrawCall} {slot : Nat} (hdraw : .draw call ∈ log)
    (hslot : call.material = some slot) : e.Drawable slot := by
  have hsound := h.sound
  obtain ⟨pass, hpass, hmem⟩ := FrameGraph.slot_of_record hlog hdraw hslot
  obtain ⟨id, hheld⟩ := hsound.holds pass hpass slot hmem
  exact hsound.settled.drawable hsound.linked hheld

theorem staged_standard {s : Services} {e : Engine} (h : (Engine.ofServices s).Continues e) (config : FrameConfig)
    (scene : Scene) : Staged e (.standard config scene) := by
  rw [FrameGraph.standard]
  cases config.blur with
  | false =>
      simp only [Bool.false_eq_true, if_false]
      refine .setOutput (.addPass (.addPass (.addPass (.addPass ?_ (.shadowMap _ _)) (.geometry _ _ _ _)) (.ui _ _))
        (.tonemap _ _ _ _ _ _)) _
      exact .createImage (.createImage (.createImage (.createImage (.new h) _) _) _) _
  | true =>
      simp only [if_true]
      refine .setOutput (.addPass (.addPass (.createImage (.addPass (.addPass (.addPass ?_ (.shadowMap _ _))
        (.geometry _ _ _ _)) (.ui _ _)) _) (.blur _ _ _ _)) (.tonemap _ _ _ _ _ _)) _
      exact .createImage (.createImage (.createImage (.createImage (.new h) _) _) _) _

def wallFrame : FrameGraph := .standard {} { materials := ["wall.json"] }

def wallEngine : Engine := .ofServices pixelServices

theorem eq_ok_of_toOption {α β : Type} {answer : Except α β} {b : β} (h : answer.toOption = some b) :
    answer = .ok b := by
  cases answer with
  | error => cases h
  | ok => exact congrArg _ (Option.some.inj h)

theorem recorded_draws_live_wall : ∃ log, Staged (wallFrame.build wallEngine).2.2 (wallFrame.build wallEngine).2.1 ∧
    ((wallFrame.build wallEngine).2.1.record (wallFrame.build wallEngine).2.2).1 = .ok log ∧
    .draw ⟨some 0, cubeVertices, 1⟩ ∈ log ∧ (wallFrame.build wallEngine).2.2.Drawable 0 := by
  have hstart : Staged wallEngine wallFrame := staged_standard .rest {} { materials := ["wall.json"] }
  have hstaged := hstart.build
  have hdraws : ((wallFrame.build wallEngine).2.1.record (wallFrame.build wallEngine).2.2).1.toOption.map
      (fun log => decide (.draw ⟨some 0, cubeVertices, 1⟩ ∈ log)) = some true := by decide +kernel
  obtain ⟨log, hsome, hmem⟩ := Option.map_eq_some_iff.mp hdraws
  have hlog := eq_ok_of_toOption hsome
  have hdraw := of_decide_eq_true hmem
  exact ⟨log, hstaged, hlog, hdraw, recorded_draws_live hstaged hlog hdraw rfl⟩

end Frame

end FrameEngine
