import FrameEngine.Proofs.Frame.Calls
import FrameEngine.Proofs.Frame.Drawing

namespace FrameEngine

open FrameEngine.Asset FrameEngine.Graph FrameEngine.Slots

def Event.tellsOfLoad : Event → Bool
  | .slotSet _ _ _ | .unavailable _ _ _ => true
  | _ => false

namespace Engine

variable {e e' e'' : Engine} {table : TableName} {path : String} {slot : Nat}

/-- Assets were looked up, and all were found: no table was changed, nothing was uploaded and no load was noted. -/
structure Revisits (e e' : Engine) : Prop where
  textures : e'.textures = e.textures
  materials : e'.materials = e.materials
  cubemaps : e'.cubemaps = e.cubemaps
  uploader : e'.services.uploader = e.services.uploader
  events : ∃ events : List Event, e'.services.journal.toList = e.services.journal.toList ++ events ∧
    ∀ event ∈ events, event.tellsOfLoad = false

theorem Revisits.refl (e : Engine) : e.Revisits e := ⟨rfl, rfl, rfl, rfl, [], by simp, by simp⟩

theorem Revisits.trans (h : e.Revisits e') (h' : e'.Revisits e'') : e.Revisits e'' where
  textures := h'.textures.trans h.textures
  materials := h'.materials.trans h.materials
  cubemaps := h'.cubemaps.trans h.cubemaps
  uploader := h'.uploader.trans h.uploader
  events := by
    obtain ⟨events, hjournal, hevents⟩ := h.events
    obtain ⟨more, hjournal', hmore⟩ := h'.events
    refine ⟨events ++ more, ?_, List.forall_mem_append.mpr ⟨hevents, hmore⟩⟩
    rw [hjournal', hjournal, List.append_assoc]

theorem revisits_note (e : Engine) {event : Event} (h : event.tellsOfLoad = false) : e.Revisits (e.note event) where
  textures := rfl
  materials := rfl
  cubemaps := rfl
  uploader := rfl
  events := ⟨[event], Array.toList_push, by simpa using h⟩

theorem revisits_register (e : Engine) (path : String) :
    e.Revisits { e with services := (e.services.register path).2 } where
  textures := rfl
  materials := rfl
  cubemaps := rfl
  uploader := rfl
  events := ⟨[], by simp [Services.register], by simp⟩

theorem Revisits.preserves (h : e.Revisits e') : e.Preserves e' := by
  intro table id slot hheld
  cases table with
  | textures => rwa [Holds, h.textures]
  | materials => rwa [Holds, h.materials]
  | cubemaps => rwa [Holds, h.cubemaps]

theorem Holds.loadPath (h : e.Holds table (.ofPath path) slot) :
    ∃ e', e.loadPath table path = (.ok slot, e') ∧ e.Revisits e' := by
  have hregistered := revisits_register e path
  refine ⟨_, ?_, hregistered⟩
  rw [loadPath_eq]
  exact (hregistered.preserves h).loadOrGet

theorem loadPaths_of_holds {paths : List String} {found : List Nat}
    (h : List.Forall₂ (fun path slot => e.Holds table (.ofPath path) slot) paths found) :
    ∃ e', e.loadPaths table paths = (found, none, e') ∧ e.Revisits e' := by
  induction paths generalizing e found with
  | nil =>
      cases h
      exact ⟨e, rfl, .refl e⟩
  | cons path paths ih =>
      cases h with
      | cons hheld hrest =>
          obtain ⟨e₁, hfirst, hrevisits⟩ := hheld.loadPath
          obtain ⟨e₂, hothers, hrevisits'⟩ := ih (hrest.imp fun path slot hheld => hrevisits.preserves hheld)
          refine ⟨e₂, ?_, hrevisits.trans hrevisits'⟩
          rw [loadPaths, hfirst]
          dsimp only
          rw [hothers]

end Engine

namespace Frame

variable {e e' : Engine}

namespace Work

variable {work : Work}

theorem revisits_noteResolved (slots : List Nat) (ambient : Option Nat) (e : Engine) :
    e.Revisits (noteResolved slots ambient e) := by
  rw [noteResolved]
  split
  · exact (e.revisits_note rfl).trans (Engine.revisits_note _ rfl)
  · exact e.revisits_note rfl

theorem FindsAmbient.again {environment : Option String} {ambient : Option Nat}
    (h : FindsAmbient e environment ambient) :
    ∃ e', findAmbient environment e = (.ok ambient, e') ∧ e.Revisits e' := by
  cases environment with
  | none =>
      obtain rfl := h
      exact ⟨e, rfl, .refl e⟩
  | some path =>
      obtain ⟨slot, rfl, hheld⟩ := h
      obtain ⟨e', hload, hrevisits⟩ := hheld.loadPath
      refine ⟨e', ?_, hrevisits⟩
      rw [findAmbient, hload]
      rfl

/-- A pass whose slots hold what it asks for is set up again without a change. -/
theorem Resolved.setup (h : work.Resolved e) (name : String) :
    ∃ e', work.setup name e = (.ok (), work, e') ∧ e.Revisits e' := by
  cases work with
  | geometry materials environment slots ambient =>
      obtain ⟨⟨found, rfl, hfound⟩, hambient⟩ := h
      obtain ⟨e₁, hmaterials, hfirst⟩ := Engine.loadPaths_of_holds hfound
      obtain ⟨e₂, hcube, hsecond⟩ := (hambient.keep hfirst.preserves).again
      refine ⟨_, ?_, (hfirst.trans hsecond).trans (revisits_noteResolved (mergeAdjacent found) ambient e₂)⟩
      rw [Work.setup, hmaterials]
      dsimp only
      rw [hcube]
  | casters | overlay | compute | actions => exact ⟨e, rfl, .refl e⟩

end Work

namespace FrameGraph

variable {g g' : FrameGraph} {passes : List FramePass} {order : List PassId} {barriers : List (List ImageBarrier)}

theorem setupPasses_of_resolved (h : ∀ pass ∈ passes, pass.work.Resolved e) :
    ∃ e', setupPasses passes e = (.ok (), passes, e') ∧ e.Revisits e' := by
  induction passes generalizing e with
  | nil => exact ⟨e, rfl, .refl e⟩
  | cons pass passes ih =>
      obtain ⟨hpass, hpasses⟩ := List.forall_mem_cons.mp h
      obtain ⟨e₁, hsetup, hfirst⟩ := hpass.setup pass.name
      obtain ⟨e₂, hothers, hrest⟩ := ih fun other hother => (hpasses other hother).keep hfirst.preserves
      refine ⟨e₂, ?_, hfirst.trans hrest⟩
      rw [setupPasses, hsetup]
      dsimp only
      rw [hothers]

theorem schedulePasses_of (hsolve : g.graph.solve = .ok order)
    (hbarriers : g.graph.barriers g.images.aspectTable order = .ok barriers) (e : Engine) :
    ∃ e', g.schedulePasses e = (.ok (), { g with order := order, barriers := barriers, built := true }, e') ∧
      e.Revisits e' := by
  have hsolved : e.Revisits (e.note (.solved (g.graph.namesOf order))) := e.revisits_note rfl
  have hbuilt : (e.note (.solved (g.graph.namesOf order))).Revisits
      ((e.note (.solved (g.graph.namesOf order))).note (.built (barrierCount barriers) order.length)) :=
    Engine.revisits_note _ rfl
  refine ⟨_, ?_, hsolved.trans hbuilt⟩
  rw [schedulePasses, PassGraph.solveNoting, hsolve]
  dsimp only
  rw [hbarriers]
  rfl

theorem of_schedulePasses (h : g.schedulePasses e = (.ok (), g', e')) :
    e.Continues e' ∧ g'.graph = g.graph ∧ g'.graph.solve = .ok g'.order ∧
      g'.graph.barriers g'.images.aspectTable g'.order = .ok g'.barriers := by
  have hcontinues := continues_schedulePasses g e
  rw [h] at hcontinues
  refine ⟨hcontinues, ?_⟩
  rw [schedulePasses] at h
  split at h
  · cases h
  next order journal hsolve =>
    dsimp only at h
    split at h
    · cases h
    next barriers hbarriers =>
      cases h
      exact ⟨rfl, solve_of_solveNoting hsolve, hbarriers⟩

structure Standing (g : FrameGraph) (e : Engine) : Prop where
  settled : e.Settled
  resolved : ∀ pass ∈ g.graph.passes.toList, pass.work.Resolved e
  order : g.graph.solve = .ok g.order
  barriers : g.graph.barriers g.images.aspectTable g.order = .ok g.barriers

theorem of_build (h : g.build e = (.ok (), g', e')) :
    ∃ passes e₁, setupPasses g.graph.passes.toList e = (.ok (), passes, e₁) ∧
      schedulePasses { g with graph := { g.graph with passes := passes.toArray }, built := false } e₁ =
        (.ok (), g', e') := by
  rw [FrameGraph.build] at h
  rcases hsetup : setupPasses g.graph.passes.toList e with ⟨cause | _, passes, e₁⟩
  · rw [hsetup] at h
    cases h
  · rw [hsetup] at h
    exact ⟨passes, e₁, rfl, h⟩

theorem standing_of_build (he : e.Settled) (h : g.build e = (.ok (), g', e')) : g'.Standing e' := by
  obtain ⟨passes, e₁, hsetup, hschedule⟩ := of_build h
  have hfirst := (continues_setupPasses g.graph.passes.toList e).growsTo he
  rw [hsetup] at hfirst
  have he₁ := hfirst.settled he
  obtain ⟨hcontinues, hgraph, horder, hbarriers⟩ := of_schedulePasses hschedule
  have hgrows := hcontinues.growsTo he₁
  refine ⟨hgrows.settled he₁, fun pass hpass => ?_, horder, hbarriers⟩
  rw [hgraph] at hpass
  exact (setupPasses_resolved he hsetup pass hpass).keep (hgrows.preserves he₁)

theorem Standing.build (h : g.Standing e) :
    ∃ e', g.build e = (.ok (), { g with built := true }, e') ∧ e.Revisits e' := by
  obtain ⟨e₁, hsetup, hfirst⟩ := setupPasses_of_resolved h.resolved
  obtain ⟨e₂, hschedule, hsecond⟩ := schedulePasses_of (g := { g with built := false }) h.order h.barriers e₁
  refine ⟨e₂, ?_, hfirst.trans hsecond⟩
  rw [FrameGraph.build, hsetup]
  exact hschedule

theorem Standing.continues (h : g.Standing e) (hcontinues : e.Continues e') : g.Standing e' where
  settled := (hcontinues.growsTo h.settled).settled h.settled
  resolved pass hpass := (h.resolved pass hpass).keep ((hcontinues.growsTo h.settled).preserves h.settled)
  order := h.order
  barriers := h.barriers

theorem Standing.createImage (h : g.Standing e)
    (hreads : ∀ pass ∈ g.graph.passes.toList, ∀ read ∈ pass.io.reads, (g.images.get? read.image).isSome)
    (description : ImageDescription) : (g.createImage description).2.Standing e where
  settled := h.settled
  resolved := h.resolved
  order := h.order
  barriers := by
    refine Eq.trans ?_ h.barriers
    -- the new image would count for reads of an image that was not there
    refine barriersFrom_congr (fun pass hpass read hread => ?_) g.order _
    exact aspects_create (hreads pass hpass read hread) description

theorem Standing.record (h : g.Standing e) : (g.record e).2.1.Standing (g.record e).2.2 := by
  obtain ⟨hgraph, himages, horder, hbarriers⟩ := record_keeps g e
  have hstanding := h.continues (continues_record g e)
  refine ⟨hstanding.settled, ?_, ?_, ?_⟩
  · rw [hgraph]
    exact hstanding.resolved
  · rw [hgraph, horder]
    exact hstanding.order
  · rw [hgraph, himages, horder, hbarriers]
    exact hstanding.barriers

end FrameGraph

/-- What may happen between two builds of a graph. Nothing is unloaded: assets are loaded, services change in any way,
other graphs are built. The graph records frames, and is given images, but no passes and no imports. -/
inductive Meanwhile (g : FrameGraph) (e : Engine) : FrameGraph → Engine → Prop
  | rest : Meanwhile g e g e
  | engine {g' e' e''} (h : Meanwhile g e g' e') (hcontinues : e'.Continues e'') : Meanwhile g e g' e''
  | createImage {g' e'} (h : Meanwhile g e g' e') (description : ImageDescription)
      (hreads : ∀ pass ∈ g'.graph.passes.toList, ∀ read ∈ pass.io.reads, (g'.images.get? read.image).isSome) :
      Meanwhile g e (g'.createImage description).2 e'
  | setOutput {g' e'} (h : Meanwhile g e g' e') (image : ImageHandle) : Meanwhile g e (g'.setOutput image) e'
  | record {g' e'} (h : Meanwhile g e g' e') : Meanwhile g e (g'.record e').2.1 (g'.record e').2.2

theorem Meanwhile.standing {g g' : FrameGraph} (h : Meanwhile g e g' e') (hg : g.Standing e) :
    g'.Standing e' ∧ g'.graph = g.graph ∧ g'.order = g.order ∧ g'.barriers = g.barriers := by
  induction h with
  | rest => exact ⟨hg, rfl, rfl, rfl⟩
  | engine _ hcontinues ih => exact ⟨ih.1.continues hcontinues, ih.2⟩
  | createImage _ description hreads ih => exact ⟨ih.1.createImage hreads description, ih.2⟩
  | setOutput _ image ih => exact ⟨⟨ih.1.settled, ih.1.resolved, ih.1.order, ih.1.barriers⟩, ih.2⟩
  | @record g' e' _ ih =>
      obtain ⟨hgraph, _, horder, hbarriers⟩ := g'.record_keeps e'
      exact ⟨ih.1.record, hgraph.trans ih.2.1, horder.trans ih.2.2.1, hbarriers.trans ih.2.2.2⟩

/-- A graph whose build went well is built again, unless something was unloaded in between: with the same order and
barriers, and with passes that have the slots they had. No table is changed and nothing is loaded. -/
theorem build_again {g g₁ g₂ : FrameGraph} {e e₁ e₂ : Engine} (he : e.Settled)
    (hbuild : g.build e = (.ok (), g₁, e₁)) (hmeanwhile : Meanwhile g₁ e₁ g₂ e₂) :
    ∃ g₃ e₃, g₂.build e₂ = (.ok (), g₃, e₃) ∧ g₃.order = g₁.order ∧ g₃.barriers = g₁.barriers ∧
      g₃.graph = g₁.graph ∧ e₂.Revisits e₃ := by
  obtain ⟨hstanding, hgraph, horder, hbarriers⟩ := hmeanwhile.standing (FrameGraph.standing_of_build he hbuild)
  obtain ⟨e₃, hagain, hrevisits⟩ := hstanding.build
  exact ⟨_, e₃, hagain, horder, hbarriers, hgraph, hrevisits⟩

def wallFile : ByteArray := textFile "\x7b\"albedoPath\": \"sky.png\"\x7d"

/-- After the first build a frame is recorded, and the material is no longer missing. It stays where it was found. -/
theorem build_again_wall : ∃ g₁ e₁ g₂ e₂ g₃ e₃, wallFrame.build wallEngine = (.ok (), g₁, e₁) ∧
    g₂ = (g₁.record e₁).2.1 ∧ e₂ = ((g₁.record e₁).2.2.insertBytes "wall.json" wallFile).2 ∧
    Meanwhile g₁ e₁ g₂ e₂ ∧ g₂.build e₂ = (.ok (), g₃, e₃) ∧ g₃.order = g₁.order ∧ g₃.barriers = g₁.barriers ∧
    g₃.graph = g₁.graph ∧ e₂.Revisits e₃ := by
  have hok : (wallFrame.build wallEngine).1 = .ok () := eq_ok_of_toOption (by decide +kernel)
  rcases hbuild : wallFrame.build wallEngine with ⟨answer, g₁, e₁⟩
  rw [hbuild] at hok
  obtain rfl : answer = .ok () := hok
  have hinserted := Engine.Continues.rest.change (e := (g₁.record e₁).2.2)
    ((g₁.record e₁).2.2.insertBytes "wall.json" wallFile).2.services
  have hmeanwhile := (Meanwhile.rest (g := g₁) (e := e₁)).record.engine hinserted
  have hsettled : wallEngine.Settled := Engine.settled_ofServices pixelServices
  obtain ⟨g₃, e₃, hagain, hkept⟩ := build_again hsettled hbuild hmeanwhile
  exact ⟨g₁, e₁, _, _, g₃, e₃, rfl, rfl, rfl, hmeanwhile, hagain, hkept⟩

end Frame

end FrameEngine
