import FrameEngine.Frame.Graph
import FrameEngine.Proofs.Graph.ScheduleBarriers

namespace FrameEngine.Frame

open FrameEngine.Graph

def Command.isUpload : Command → Bool
  | .upload _ _ => true
  | _ => false

def Command.isWork : Command → Bool
  | .draw _ | .dispatch _ _ _ => true
  | _ => false

namespace Work

structure IsPlain (work : Work) : Prop where
  before : ∀ images frame, ∀ command ∈ work.before images frame, command.isUpload
  during : ∀ images frame, ∀ command ∈ work.during images frame, command.isWork

theorem isPlain_of_ne_actions {work : Work} (h : ∀ before during, work ≠ .actions before during) :
    work.IsPlain := by
  cases work with
  | casters vertices =>
      refine ⟨by simp [before], fun images frame command hm => ?_⟩
      rw [during] at hm
      split at hm <;> simp_all [Command.isWork]
  | geometry materials environment slots ambient =>
      refine ⟨by simp [before], fun images frame command hm => ?_⟩
      obtain ⟨slot, _, rfl⟩ := List.mem_map.mp hm
      rfl
  | overlay quads =>
      refine ⟨fun images frame command hm => ?_, fun images frame command hm => ?_⟩
      · rw [before] at hm
        split at hm <;> simp_all [Command.isUpload]
      · rw [during] at hm
        split at hm <;> simp_all [Command.isWork]
  | compute width height => exact ⟨by simp [before], by simp [during, dispatchOver, Command.isWork]⟩
  | actions before during => exact absurd rfl (h before during)

theorem IsPlain.setup {work : Work} (h : work.IsPlain) (name : String) (e : Engine) :
    (work.setup name e).2.1.IsPlain := by
  cases work with
  | casters vertices | overlay quads | compute width height | actions before during => exact h
  | geometry materials environment slots ambient =>
      rw [Work.setup]
      split
      · exact h
      · dsimp only
        split
        · exact isPlain_of_ne_actions (by simp)
        · exact isPlain_of_ne_actions (by simp)

end Work

/-- The commands of passes one after another: for each its barriers, if there are any, and its draws and
dispatches between its begin and its end. -/
inductive Sections (images : RenderImages) (frame : Nat) :
    List FramePass → List (List ImageBarrier) → List Command → Prop
  | nil : Sections images frame [] [] []
  | cons {passes lists rest} (pass barriers)
      (hwork : ∀ command ∈ pass.work.during images frame, command.isWork)
      (hrest : Sections images frame passes lists rest) :
      Sections images frame (pass :: passes) (barriers :: lists)
        ((if barriers = [] then [] else [.barrier barriers]) ++
          .beginPass pass.name :: (pass.work.during images frame ++ .endPass :: rest))

def IsFrame (images : RenderImages) (frame : Nat) (passes : List FramePass) (lists : List (List ImageBarrier))
    (log : List Command) : Prop :=
  ∃ uploads sections, log = uploads ++ sections ∧
    uploads = (passes.flatMap fun pass => pass.work.before images frame) ∧
    (∀ command ∈ uploads, command.isUpload) ∧ Sections images frame passes lists sections

theorem sections_of_isPlain (images : RenderImages) (frame : Nat) {passes : List FramePass}
    {lists : List (List ImageBarrier)} (hplain : ∀ pass ∈ passes, pass.work.IsPlain)
    (hlength : lists.length = passes.length) :
    Sections images frame passes lists
      (List.zipWith (FrameGraph.passCommands images frame) passes lists).flatten := by
  induction passes generalizing lists with
  | nil =>
      obtain rfl := List.eq_nil_of_length_eq_zero hlength
      exact .nil
  | cons pass passes ih =>
      cases lists with
      | nil => cases hlength
      | cons barriers lists =>
          obtain ⟨hpass, hrest⟩ := List.forall_mem_cons.mp hplain
          have h := Sections.cons pass barriers (hpass.during images frame) (ih hrest (Nat.succ.inj hlength))
          rw [List.zipWith_cons_cons, List.flatten_cons, FrameGraph.passCommands]
          simpa using h

namespace FrameGraph

variable {g g' : FrameGraph} {e e' : Engine} {passes : List FramePass}

theorem pass_mem {id : PassId} {pass : FramePass} (h : g.graph.pass id = .ok pass) :
    pass ∈ g.graph.passes.toList := by
  rw [PassGraph.pass] at h
  cases hposition : g.graph.position id with
  | error cause =>
      rw [hposition] at h
      cases h
  | ok position =>
      rw [hposition] at h
      cases h
      exact Array.mem_toList_iff.mpr (Array.getElem_mem position.isLt)

theorem setupPasses_isPlain (passes : List FramePass) (e : Engine) (h : ∀ pass ∈ passes, pass.work.IsPlain) :
    ∀ pass ∈ (setupPasses passes e).2.1, pass.work.IsPlain := by
  induction passes generalizing e with
  | nil => exact h
  | cons pass passes ih =>
      obtain ⟨hpass, hrest⟩ := List.forall_mem_cons.mp h
      have hwork := hpass.setup pass.name e
      rw [setupPasses]
      split
      next hsetup =>
        rw [hsetup] at hwork
        exact List.forall_mem_cons.mpr ⟨hwork, hrest⟩
      next hsetup =>
        rw [hsetup] at hwork
        exact List.forall_mem_cons.mpr ⟨hwork, ih _ hrest⟩

structure Ready (g : FrameGraph) (passes : List FramePass) : Prop where
  built : g.built = true
  order : g.order.map g.graph.pass = passes.map .ok
  barriers : g.graph.barriers g.images.aspectTable g.order = .ok g.barriers
  plain : ∀ pass ∈ passes, pass.work.IsPlain

theorem passes_of_barriersFrom {aspects : AspectTable} {order : List PassId} {states : ImageStates}
    {lists : List (List ImageBarrier)} (h : g.graph.barriersFrom aspects order states = .ok lists) :
    ∃ passes : List FramePass, order.map g.graph.pass = passes.map .ok := by
  induction order generalizing states lists with
  | nil => exact ⟨[], rfl⟩
  | cons id order ih =>
      cases hpass : g.graph.pass id with
      | error cause => simp [PassGraph.barriersFrom, hpass, bind, Except.bind] at h
      | ok pass =>
          rw [PassGraph.barriersFrom_cons hpass] at h
          split at h
          · cases h
          next barriers after hmade =>
            cases hrest : g.graph.barriersFrom aspects order after with
            | error cause =>
                rw [hrest] at h
                cases h
            | ok lists =>
                obtain ⟨passes, hpasses⟩ := ih hrest
                exact ⟨pass :: passes, by rw [List.map_cons, List.map_cons, hpass, hpasses]⟩

theorem ready_of_schedule (hplain : ∀ pass ∈ g.graph.passes.toList, pass.work.IsPlain)
    (h : g.schedulePasses e = (.ok (), g', e')) : ∃ passes, g'.Ready passes := by
  rw [schedulePasses] at h
  split at h
  · cases h
  next order journal hsolve =>
    dsimp only at h
    split at h
    · cases h
    next barriers hbarriers =>
      cases h
      obtain ⟨passes, hpasses⟩ := passes_of_barriersFrom hbarriers
      refine ⟨passes, rfl, hpasses, hbarriers, fun pass hm => ?_⟩
      obtain ⟨id, _, hid⟩ : ∃ id ∈ order, g.graph.pass id = .ok pass := by
        have hmem : (.ok pass : Except GraphError FramePass) ∈ order.map g.graph.pass := by
          rw [hpasses]
          exact List.mem_map_of_mem hm
        exact List.mem_map.mp hmem
      exact hplain pass (pass_mem hid)

theorem ready_of_build (hplain : ∀ pass ∈ g.graph.passes.toList, pass.work.IsPlain)
    (h : g.build e = (.ok (), g', e')) : ∃ passes, g'.Ready passes := by
  have hsetup := setupPasses_isPlain g.graph.passes.toList e hplain
  rw [build] at h
  generalize setupPasses g.graph.passes.toList e = made at h hsetup
  obtain ⟨result, passes, e₁⟩ := made
  cases result with
  | error cause => cases h
  | ok _ => exact ready_of_schedule (by simpa using hsetup) h

theorem mapM_of_map {α β ε : Type} {f : α → Except ε β} {l : List α} {l' : List β}
    (h : l.map f = l'.map .ok) :
    l.mapM f = .ok l' := by
  induction l generalizing l' with
  | nil =>
      obtain rfl := List.map_eq_nil_iff.mp h.symm
      rfl
  | cons a l ih =>
      cases l' with
      | nil => cases h
      | cons b l' =>
          obtain ⟨ha, hl⟩ := List.cons.inj h
          rw [List.mapM_cons, ha, ih hl]
          rfl

theorem map_of_mapM {α β ε : Type} {f : α → Except ε β} {l : List α} {l' : List β} (h : l.mapM f = .ok l') :
    l.map f = l'.map .ok := by
  induction l generalizing l' with
  | nil =>
      cases h
      rfl
  | cons a l ih =>
      rw [List.mapM_cons] at h
      cases ha : f a with
      | error cause =>
          rw [ha] at h
          cases h
      | ok b =>
          cases hl : l.mapM f with
          | error cause =>
              rw [ha, hl] at h
              cases h
          | ok rest =>
              rw [ha, hl] at h
              cases h
              rw [List.map_cons, List.map_cons, ha, ih hl]

theorem Ready.record (h : g.Ready passes) (e : Engine) :
    g.record e =
      (.ok (g.frameCommands passes), { g with frames := g.frames + 1 }, e.note (.recorded g.frames)) := by
  rw [FrameGraph.record, if_pos h.built, mapM_of_map h.order]

theorem Ready.isFrame (h : g.Ready passes) :
    IsFrame g.images g.frames passes g.barriers (g.frameCommands passes) := by
  refine ⟨_, _, rfl, rfl, fun command hm => ?_, sections_of_isPlain g.images g.frames h.plain ?_⟩
  · obtain ⟨pass, hpass, hm⟩ := List.mem_flatMap.mp hm
    exact (h.plain pass hpass).before g.images g.frames command hm
  · have hlength : g.order.length = passes.length := by simpa using congrArg List.length h.order
    exact (PassGraph.complete_of_barriers h.order h.barriers).1.trans hlength

def recordEach : List Engine → FrameGraph → Except GraphError (List (List Command) × FrameGraph)
  | [], g => .ok ([], g)
  | e :: rest, g => match g.record e with
      | (.error cause, _) => .error cause
      | (.ok commands, g, _) => (recordEach rest g).map fun (logs, g) => (commands :: logs, g)

/-- A graph that was built records every frame, and is none the worse for it. -/
theorem Ready.recordEach (h : g.Ready passes) (engines : List Engine) :
    ∃ logs, FrameGraph.recordEach engines g = .ok (logs, { g with frames := g.frames + engines.length }) ∧
      logs.length = engines.length ∧
      ∀ k log, logs[k]? = some log → IsFrame g.images (g.frames + k) passes g.barriers log := by
  induction engines generalizing g with
  | nil => exact ⟨[], rfl, rfl, nofun⟩
  | cons e engines ih =>
      have hnext : ({ g with frames := g.frames + 1 } : FrameGraph).Ready passes :=
        ⟨h.built, h.order, h.barriers, h.plain⟩
      obtain ⟨logs, hrecord, hlength, hframes⟩ := ih hnext
      refine ⟨g.frameCommands passes :: logs, ?_, congrArg (· + 1) hlength, fun k log hk => ?_⟩
      · rw [FrameGraph.recordEach, h.record]
        dsimp only
        rw [hrecord, List.length_cons, Nat.add_comm engines.length 1, ← Nat.add_assoc]
        rfl
      · cases k with
        | zero =>
            cases hk
            exact h.isFrame
        | succ k =>
            have hf := hframes k log hk
            rwa [Nat.add_assoc, Nat.add_comm 1 k] at hf

end FrameGraph

end FrameEngine.Frame
