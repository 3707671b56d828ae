import FrameEngine.Frame.Graph
import FrameEngine.Proofs.Engine.Growth

namespace FrameEngine

open FrameEngine.Asset FrameEngine.Graph FrameEngine.Slots

namespace Engine

variable {e e' : Engine} {table : TableName}

theorem loadPath_eq (e : Engine) (table : TableName) (path : String) :
    e.loadPath table path =
      Engine.loadOrGet { e with services := (e.services.register path).2 } table (.ofPath path) := by
  have hid : (e.services.register path).1 = .ofPath path := e.services.assets.register_fst path
  rw [← hid]
  rfl

theorem continues_loadPath (e : Engine) (table : TableName) (path : String) :
    e.Continues (e.loadPath table path).2 := by
  rw [loadPath_eq]
  exact (Continues.rest.change _).load table _

theorem continues_loadPaths (e : Engine) (table : TableName) (paths : List String) :
    e.Continues (e.loadPaths table paths).2.2 := by
  induction paths generalizing e with
  | nil => exact .rest
  | cons path paths ih =>
      have hfirst := continues_loadPath e table path
      rw [loadPaths]
      split
      next heq => rwa [heq] at hfirst
      next heq =>
        rw [heq] at hfirst
        exact hfirst.trans (ih _)

theorem Settled.loadPath (he : e.Settled) {path : String} {slot : Nat}
    (h : e.loadPath table path = (.ok slot, e')) : e'.Holds table (.ofPath path) slot := by
  have hheld := ((he.change (e.services.register path).2).loadOrGet table (.ofPath path)).2
  rw [← loadPath_eq, h] at hheld
  exact hheld slot rfl

theorem Settled.loadPaths (he : e.Settled) {paths : List String} {found : List Nat}
    (h : e.loadPaths table paths = (found, none, e')) :
    List.Forall₂ (fun path slot => e'.Holds table (.ofPath path) slot) paths found := by
  induction paths generalizing e found with
  | nil =>
      cases h
      exact .nil
  | cons path paths ih =>
      have hfirst := continues_loadPath e table path
      rw [Engine.loadPaths] at h
      split at h
      · cases h
      next slot e₁ heq =>
        rw [heq] at hfirst
        have he₁ := (hfirst.growsTo he).settled he
        have hrest := continues_loadPaths e₁ table paths
        rcases hpaths : e₁.loadPaths table paths with ⟨slots, cause, e₂⟩
        rw [hpaths] at h hrest
        cases h
        exact .cons ((hrest.growsTo he₁).preserves he₁ (he.loadPath heq)) (ih he₁ hpaths)

end Engine

namespace Frame

variable {e e' : Engine} {name : String} {work work' : Work} {result : Except GraphError Unit}

def Action.slot? : Action → Option Nat
  | .draw call => call.material
  | _ => none

namespace Work

def slots : Work → List Nat
  | .geometry _ _ slots _ => slots
  | .actions before during => (before ++ during).filterMap Action.slot?
  | _ => []

/-- The slots, in order, that materials were found in, each run of equal ones merged. -/
def FindsMaterials (e : Engine) (materials : List String) (slots : List Nat) : Prop :=
  ∃ found, slots = mergeAdjacent found ∧
    List.Forall₂ (fun path slot => e.Holds .materials (.ofPath path) slot) materials found

def FindsAmbient (e : Engine) : Option String → Option Nat → Prop
  | none, ambient => ambient = none
  | some path, ambient => ∃ slot, ambient = some slot ∧ e.Holds .cubemaps (.ofPath path) slot

/-- What setup is for: the slots of a pass hold what it asks for. -/
def Resolved (e : Engine) : Work → Prop
  | .geometry materials environment slots ambient =>
      FindsMaterials e materials slots ∧ FindsAmbient e environment ambient
  | _ => True

theorem mem_of_mem_mergeAdjacent {slot : Nat} {found : List Nat} (h : slot ∈ mergeAdjacent found) : slot ∈ found := by
  induction found with
  | nil => exact h
  | cons first found ih =>
      have hsub : slot ∈ first :: mergeAdjacent found := by
        rw [mergeAdjacent] at h
        cases hmerged : mergeAdjacent found with
        | nil =>
            rw [hmerged] at h
            exact h
        | cons next others =>
            rw [hmerged] at h
            dsimp only at h
            split at h
            · exact List.mem_cons_of_mem first h
            · exact h
      rcases List.mem_cons.mp hsub with rfl | hrest
      · exact List.mem_cons_self
      · exact List.mem_cons_of_mem first (ih hrest)

theorem FindsMaterials.keep {materials : List String} {slots : List Nat} (h : FindsMaterials e materials slots)
    (hkeeps : e.Preserves e') : FindsMaterials e' materials slots := by
  obtain ⟨found, hslots, hfound⟩ := h
  exact ⟨found, hslots, hfound.imp fun path slot hheld => hkeeps hheld⟩

theorem FindsAmbient.keep {environment : Option String} {ambient : Option Nat} (h : FindsAmbient e environment ambient)
    (hkeeps : e.Preserves e') : FindsAmbient e' environment ambient := by
  cases environment with
  | none => exact h
  | some path =>
      obtain ⟨slot, hslot, hheld⟩ := h
      exact ⟨slot, hslot, hkeeps hheld⟩

theorem Resolved.keep (h : work.Resolved e) (hkeeps : e.Preserves e') : work.Resolved e' := by
  cases work with
  | geometry materials environment slots ambient => exact ⟨h.1.keep hkeeps, h.2.keep hkeeps⟩
  | casters | overlay | compute | actions => trivial

theorem continues_noteResolved (slots : List Nat) (ambient : Option Nat) (e : Engine) :
    e.Continues (noteResolved slots ambient e) := by
  rw [noteResolved]
  split
  · exact (Engine.Continues.rest.change _).change _
  · exact Engine.Continues.rest.change _

theorem continues_findAmbient (environment : Option String) (e : Engine) :
    e.Continues (findAmbient environment e).2 := by
  cases environment with
  | none => exact .rest
  | some path => exact e.continues_loadPath .cubemaps path

theorem continues_setup (name : String) (work : Work) (e : Engine) : e.Continues (work.setup name e).2.2 := by
  cases work with
  | geometry materials environment slots ambient =>
      have hmaterials := e.continues_loadPaths .materials materials
      rw [setup]
      split
      next heq => rwa [heq] at hmaterials
      next found e₁ heq =>
        rw [heq] at hmaterials
        have hambient := continues_findAmbient environment e₁
        dsimp only
        split
        next hcube =>
          rw [hcube] at hambient
          exact hmaterials.trans hambient
        next hcube =>
          rw [hcube] at hambient
          exact (hmaterials.trans hambient).trans (continues_noteResolved _ _ _)
  | casters | overlay | compute | actions => exact .rest

theorem findAmbient_finds (he : e.Settled) {environment : Option String} {ambient : Option Nat}
    (h : findAmbient environment e = (.ok ambient, e')) : FindsAmbient e' environment ambient := by
  cases environment with
  | none =>
      cases h
      rfl
  | some path =>
      rcases hload : e.loadPath .cubemaps path with ⟨cause | slot, e₁⟩
      · rw [findAmbient, hload] at h
        cases h
      · rw [findAmbient, hload] at h
        cases h
        exact ⟨slot, rfl, he.loadPath hload⟩

inductive Sets (e' : Engine) : Work → Except GraphError Unit → Work → Prop
  | kept {work : Work} {result} (hresolved : result = .ok () → work.Resolved e') : Sets e' work result work
  | materials {materials environment slots ambient slots' cause} (hmaterials : FindsMaterials e' materials slots') :
      Sets e' (.geometry materials environment slots ambient) (.error cause)
        (.geometry materials environment slots' ambient)
  | all {materials environment slots ambient slots' ambient'} (hmaterials : FindsMaterials e' materials slots')
      (hambient : FindsAmbient e' environment ambient') :
      Sets e' (.geometry materials environment slots ambient) (.ok ())
        (.geometry materials environment slots' ambient')

theorem setup_sets (he : e.Settled) (name : String) (work : Work) :
    Sets (work.setup name e).2.2 work (work.setup name e).1 (work.setup name e).2.1 := by
  cases work with
  | geometry materials environment slots ambient =>
      rw [setup]
      split
      · exact .kept (by simp)
      next found e₁ heq =>
        have hmaterials := e.continues_loadPaths .materials materials
        rw [heq] at hmaterials
        have he₁ := (hmaterials.growsTo he).settled he
        have hfound : FindsMaterials e₁ materials (mergeAdjacent found) := ⟨found, rfl, he.loadPaths heq⟩
        have hambient := (continues_findAmbient environment e₁).growsTo he₁
        dsimp only
        split
        next hcube =>
          rw [hcube] at hambient
          exact .materials (hfound.keep (hambient.preserves he₁))
        next ambient e₂ hcube =>
          rw [hcube] at hambient
          -- what is noted in the end does not touch the tables
          have he₂ := hambient.settled he₁
          have hnoted := ((continues_noteResolved (mergeAdjacent found) ambient e₂).growsTo he₂).preserves he₂
          exact .all ((hfound.keep (hambient.preserves he₁)).keep hnoted) ((findAmbient_finds he₁ hcube).keep hnoted)
  | casters | overlay | compute | actions => exact .kept fun _ => trivial

theorem setup_resolved (he : e.Settled) (h : work.setup name e = (.ok (), work', e')) : work'.Resolved e' := by
  have hsets := setup_sets he name work
  rw [h] at hsets
  cases hsets with
  | kept hresolved => exact hresolved rfl
  | all hmaterials hambient => exact ⟨hmaterials, hambient⟩

theorem FindsMaterials.holds {materials : List String} {slots : List Nat} (h : FindsMaterials e materials slots) :
    ∀ slot ∈ slots, ∃ id, e.Holds .materials id slot := by
  obtain ⟨found, rfl, hfound⟩ := h
  have hall : ∀ slot ∈ found, ∃ id, e.Holds .materials id slot := by
    induction hfound with
    | nil => simp
    | cons hheld _ ih => exact List.forall_mem_cons.mpr ⟨⟨_, hheld⟩, ih⟩
  exact fun slot hslot => hall slot (mem_of_mem_mergeAdjacent hslot)

theorem setup_slots (he : e.Settled) (h : work.setup name e = (result, work', e')) :
    ∀ slot ∈ work'.slots, slot ∈ work.slots ∨ ∃ id, e'.Holds .materials id slot := by
  have hsets := setup_sets he name work
  rw [h] at hsets
  intro slot hslot
  cases hsets with
  | kept => exact .inl hslot
  | materials hmaterials => exact .inr (hmaterials.holds slot hslot)
  | all hmaterials => exact .inr (hmaterials.holds slot hslot)

end Work

namespace FrameGraph

variable {g g' : FrameGraph} {passes passes' : List FramePass}

theorem continues_setupPasses (passes : List FramePass) (e : Engine) : e.Continues (setupPasses passes e).2.2 := by
  induction passes generalizing e with
  | nil => exact .rest
  | cons pass passes ih =>
      have hsetup := pass.work.continues_setup pass.name e
      rw [setupPasses]
      split
      next heq => rwa [heq] at hsetup
      next heq =>
        rw [heq] at hsetup
        exact hsetup.trans (ih _)

theorem setupPasses_resolved (he : e.Settled) (h : setupPasses passes e = (.ok (), passes', e')) :
    ∀ pass ∈ passes', pass.work.Resolved e' := by
  induction passes generalizing e passes' with
  | nil =>
      cases h
      simp
  | cons pass passes ih =>
      rw [setupPasses] at h
      split at h
      · cases h
      next work e₁ heq =>
        have hfirst := pass.work.continues_setup pass.name e
        rw [heq] at hfirst
        have he₁ := (hfirst.growsTo he).settled he
        have hrest := (continues_setupPasses passes e₁).growsTo he₁
        rcases hpasses : setupPasses passes e₁ with ⟨result, others, e₂⟩
        rw [hpasses] at h hrest
        cases h
        exact List.forall_mem_cons.mpr ⟨(Work.setup_resolved he heq).keep (hrest.preserves he₁), ih he₁ hpasses⟩

def HoldsSlots (e : Engine) (passes : List FramePass) : Prop :=
  ∀ pass ∈ passes, ∀ slot ∈ pass.work.slots, ∃ id, e.Holds .materials id slot

theorem HoldsSlots.keep (h : HoldsSlots e passes) (hkeeps : e.Preserves e') : HoldsSlots e' passes := by
  intro pass hpass slot hslot
  obtain ⟨id, hheld⟩ := h pass hpass slot hslot
  exact ⟨id, hkeeps hheld⟩

/-- Whether all are set up or one fails, slots of before hold what they held, and new ones hold materials. -/
theorem HoldsSlots.setupPasses (h : HoldsSlots e passes) (he : e.Settled) :
    HoldsSlots (setupPasses passes e).2.2 (setupPasses passes e).2.1 := by
  induction passes generalizing e with
  | nil => exact h
  | cons pass passes ih =>
      obtain ⟨hpass, hpasses⟩ := List.forall_mem_cons.mp h
      have hfirst := (pass.work.continues_setup pass.name e).growsTo he
      have hown : ∀ slot ∈ (pass.work.setup pass.name e).2.1.slots,
          ∃ id, (pass.work.setup pass.name e).2.2.Holds .materials id slot := by
        intro slot hslot
        rcases Work.setup_slots he rfl slot hslot with hbefore | hnew
        · obtain ⟨id, hheld⟩ := hpass slot hbefore
          exact ⟨id, hfirst.preserves he hheld⟩
        · exact hnew
      have hothers := HoldsSlots.keep hpasses (hfirst.preserves he)
      rw [FrameGraph.setupPasses]
      split
      next heq =>
        rw [heq] at hown hothers
        exact List.forall_mem_cons.mpr ⟨hown, hothers⟩
      next work e₁ heq =>
        rw [heq] at hown hothers hfirst
        have he₁ := hfirst.settled he
        have hrest := (continues_setupPasses passes e₁).growsTo he₁
        refine List.forall_mem_cons.mpr ⟨fun slot hslot => ?_, ih hothers he₁⟩
        obtain ⟨id, hheld⟩ := hown slot hslot
        exact ⟨id, hrest.preserves he₁ hheld⟩

theorem continues_schedulePasses (g : FrameGraph) (e : Engine) : e.Continues (g.schedulePasses e).2.2 := by
  rw [schedulePasses]
  split
  · exact .rest
  · dsimp only
    split
    · exact Engine.Continues.rest.change _
    · exact (Engine.Continues.rest.change _).change _

theorem graph_schedulePasses (g : FrameGraph) (e : Engine) : (g.schedulePasses e).2.1.graph = g.graph := by
  rw [schedulePasses]
  split
  · rfl
  · dsimp only
    split <;> rfl

theorem continues_build (g : FrameGraph) (e : Engine) : e.Continues (g.build e).2.2 := by
  have hsetup := continues_setupPasses g.graph.passes.toList e
  rw [build]
  rcases hresult : setupPasses g.graph.passes.toList e with ⟨_ | _, passes, e₁⟩
  · rwa [hresult] at hsetup
  · rw [hresult] at hsetup
    exact hsetup.trans (continues_schedulePasses _ _)

theorem HoldsSlots.build (h : HoldsSlots e g.graph.passes.toList) (he : e.Settled) :
    HoldsSlots (g.build e).2.2 (g.build e).2.1.graph.passes.toList := by
  have hsetup := h.setupPasses he
  have hcontinues := (continues_setupPasses g.graph.passes.toList e).growsTo he
  rw [FrameGraph.build]
  rcases hresult : FrameGraph.setupPasses g.graph.passes.toList e with ⟨_ | _, passes, e₁⟩
  · rw [hresult] at hsetup
    exact hsetup
  · rw [hresult] at hsetup hcontinues
    have he₁ := hcontinues.settled he
    dsimp only
    rw [graph_schedulePasses]
    exact hsetup.keep (((continues_schedulePasses _ e₁).growsTo he₁).preserves he₁)

theorem continues_record (g : FrameGraph) (e : Engine) : e.Continues (g.record e).2.2 := by
  rw [record]
  split
  · split
    · exact .rest
    · exact Engine.Continues.rest.change _
  · exact .rest

end FrameGraph

end Frame

end FrameEngine
