import FrameEngine.Proofs.Engine.Formats

namespace FrameEngine

open FrameEngine.Asset FrameEngine.Material FrameEngine.Slots FrameEngine.Texture

section Maps

variable {α : Type} {f : AssetId → TextureTable × Services → List α}

def Services.withMap (s : Services) (path : String) (isLinear : Bool) : Services :=
  if isLinear then (s.register path).2.markLinear (.ofPath path) else (s.register path).2

theorem mapSlot_eq (path : String) (isLinear : Bool) (t : TextureTable) (s : Services) :
    (mapSlot (some path) isLinear).run (t, s) =
      let w := textureLoader.loadOrGet (.ofPath path) (t, s.withMap path isLinear)
      (w.1.map fun slot => UInt32.ofNat slot, w.2) := by
  have hid : (s.register path).1 = .ofPath path := s.assets.register_fst path
  rw [Services.withMap, ← hid, run_mapSlot]
  dsimp only
  rcases textureLoader.loadOrGet (s.register path).1 _ with ⟨_ | slot, w⟩ <;> rfl

/-- What `f` says of the calls for maps that are looked up one after another, up to the first that has no answer. -/
def alongMaps (f : AssetId → TextureTable × Services → List α) :
    List (Option String × Bool) → TextureTable × Services → List α
  | [], _ => []
  | (none, _) :: maps, w => alongMaps f maps w
  | (some path, isLinear) :: maps, w =>
      f (.ofPath path) (w.1, w.2.withMap path isLinear) ++
        match (mapSlot (some path) isLinear).run w with
        | (.ok _, w) => alongMaps f maps w
        | (.error _, _) => []

def alongLoad (f : AssetId → TextureTable × Services → List α) (asset : AssetId) (w : TextureTable × Services) :
    List α :=
  match materialDocument w.2 asset with
  | .error _ => []
  | .ok document => alongMaps f document.mapsByKind w

/-- What registrations, marks and calls for textures lead to, and what `f` says of the calls, in order. -/
inductive Along (f : AssetId → TextureTable × Services → List α) :
    TextureTable × Services → List α → TextureTable × Services → Prop
  | nil (w) : Along f w [] w
  | register {textures s path said w'} (rest : Along f (textures, (s.register path).2) said w') :
      Along f (textures, s) said w'
  | markLinear {textures s id said w'} (rest : Along f (textures, s.markLinear id) said w') :
      Along f (textures, s) said w'
  | call {id w said w'} (rest : Along f (textureLoader.loadOrGet id w).2 said w') : Along f w (f id w ++ said) w'

theorem Along.withMap {path : String} {isLinear : Bool} {t : TextureTable} {s : Services} {said : List α}
    {w' : TextureTable × Services} (h : Along f (t, s.withMap path isLinear) said w') : Along f (t, s) said w' := by
  rw [Services.withMap] at h
  cases isLinear with
  | false => exact h.register
  | true => exact h.markLinear.register

theorem along_indicesOf (maps : List (Option String × Bool)) (w : TextureTable × Services) :
    Along f w (alongMaps f maps w) ((indicesOf maps).run w).2 := by
  induction maps generalizing w with
  | nil => exact .nil w
  | cons map maps ih =>
      obtain ⟨_ | path, isLinear⟩ := map
      · rw [alongMaps, run_indicesOf_cons]
        exact ih w
      · obtain ⟨t, s⟩ := w
        rw [alongMaps, run_indicesOf_cons, mapSlot_eq]
        refine .withMap (.call ?_)
        rcases textureLoader.loadOrGet (.ofPath path) (t, s.withMap path isLinear) with ⟨cause | slot, w⟩
        · exact .nil w
        · exact ih w

/-- The load of a material is made of these calls, in this order. -/
theorem along_loadMaterial (asset : AssetId) (w : TextureTable × Services) :
    Along f w (alongLoad f asset w) (loadMaterial asset w).2 := by
  rw [alongLoad, loadMaterial]
  cases materialDocument w.2 asset with
  | error cause => exact .nil w
  | ok document =>
      have halong := along_indicesOf (f := f) document.mapsByKind w
      rw [← textures_of_mapSlots, run_bind] at halong
      dsimp only
      rcases hrun : (mapSlots document).run w with ⟨cause | maps, w'⟩ <;> rwa [hrun] at halong

end Maps

section Orderly

def textureCalls (id : AssetId) (w : TextureTable × Services) : List (Entry GpuTexture) :=
  textureLoader.entriesOf (.load id) w

abbrev TexturesLeadBy := LeadsBy (σ := Services) (.ofPath missingTexture) Services.Notes (κ := AssetId)
  (N := textureSlots)

theorem Along.leadsBy {w w' : TextureTable × Services} {calls : List (Entry GpuTexture)}
    (h : Along textureCalls w calls w') : TexturesLeadBy calls w w' := by
  induction h with
  | nil w => exact .refl ledger_notes w
  | @register textures s path _ _ _ ih =>
      have hrest : TexturesLeadBy [] (textures, s) (textures, (s.register path).2) :=
        leads_of_rest ⟨notes_of_eq rfl, rfl⟩
      exact hrest.append ledger_notes ih
  | @markLinear textures s id _ _ _ ih =>
      have hrest : TexturesLeadBy [] (textures, s) (textures, s.markLinear id) :=
        leads_of_rest ⟨notes_of_eq rfl, rfl⟩
      exact hrest.append ledger_notes ih
  | @call id w _ _ _ ih => exact (textureLoader_tallies.perform (.load id) w).append ledger_notes ih

abbrev materialCaller : Loader ((TextureTable × Services) × List (Entry GpuTexture)) AssetId Material materialSlots :=
  materialLoader.logging (alongLoad textureCalls)

theorem materialCaller_tallies : materialCaller.Tallies fun w _ w' =>
    ∃ calls, TexturesLeadBy calls w.1 w'.1 ∧ w'.2 = w.2 ++ calls where
  ledger :=
    { refl w := ⟨[], .refl ledger_notes w.1, (List.append_nil w.2).symm⟩
      trans := by
        rintro w w' w'' _ _ ⟨calls, hleads, hlog⟩ ⟨more, hmore, hlog'⟩
        exact ⟨calls ++ more, hleads.append ledger_notes hmore, by rw [hlog', hlog, List.append_assoc]⟩ }
  release _ w := ⟨[], .refl ledger_notes w.1, (List.append_nil w.2).symm⟩
  note _ w := ⟨[], leads_of_rest ⟨notes_of_eq rfl, rfl⟩, (List.append_nil w.2).symm⟩
  load id t w := ⟨(loadMaterial id w.1).1, ((loadMaterial id w.1).2, w.2 ++ alongLoad textureCalls id w.1), rfl,
    alongLoad textureCalls id w.1, (along_loadMaterial id w.1).leadsBy, rfl⟩

end Orderly

namespace Engine

/-- What an operation has the uploader do, in order. -/
def callsOf (e : Engine) (table : TableName) (op : Op AssetId) : List (Entry GpuTexture) :=
  match table with
  | .textures => textureLoader.entriesOf op (e.textures, e.services)
  | .materials => (materialCaller.perform op (e.materials, (e.textures, e.services), [])).2.2
  | .cubemaps => cubemapLoader.entriesOf op (e.cubemaps, e.services)

/-- What the engine's end has the uploader do. -/
def callsOfDrop (e : Engine) : List (Entry GpuTexture) :=
  let (textures, s) := materialLoader.drop (e.materials, e.textures, e.services)
  (textureLoader.recorded.drop (textures, cubemapLoader.recorded.drop (e.cubemaps, s, []))).2

/-- What operations, one after another, make of an engine with a new uploader, and all that they have the uploader do. In
between, anything may change but the tables and the uploader. -/
inductive UsedBy : Engine → List (Entry GpuTexture) → Prop
  | start {s : Services} (hs : s.uploader = {}) : UsedBy (ofServices s) []
  | perform {e : Engine} {calls} (h : UsedBy e calls) (table) (op) :
      UsedBy (e.perform table op) (calls ++ e.callsOf table op)
  | change {e : Engine} {calls} (h : UsedBy e calls) {s : Services} (hs : s.uploader = e.services.uploader) :
      UsedBy { e with services := s } calls

theorem used_iff {e : Engine} : e.Used ↔ ∃ calls, e.UsedBy calls := by
  constructor
  · intro h
    induction h with
    | start hs => exact ⟨[], .start hs⟩
    | perform _ table op ih =>
        obtain ⟨calls, hcalls⟩ := ih
        exact ⟨_, hcalls.perform table op⟩
    | change _ hs ih =>
        obtain ⟨calls, hcalls⟩ := ih
        exact ⟨calls, hcalls.change hs⟩
  · rintro ⟨calls, h⟩
    induction h with
    | start hs => exact .start hs
    | perform _ table op ih => exact ih.perform table op
    | change _ hs ih => exact ih.change hs

/-- The tables are where steps have brought them, and all that was made and given back in these steps is
what the uploader was called for: `log` has it in order, for textures on the left and for cubemaps on the
right. -/
structure Accounts (e : Engine) (log : List (Entry GpuTexture ⊕ Entry GpuTexture)) : Prop where
  calls : Uploader.Calls {} (log.map (Sum.elim id id)) e.services.uploader
  textures : ∃ trace, Run (.ofPath missingTexture) .start trace ⟨e.textures, 0⟩ ∧
    trace.flatMap Effect.entries = log.filterMap Sum.getLeft?
  cubemaps : ∃ trace, Run (.ofPath missingCubemap) .start trace ⟨e.cubemaps, 0⟩ ∧
    trace.flatMap Effect.entries = log.filterMap Sum.getRight?
  materials : e.materials.Settled (.ofPath missingMaterial)

section Accounts

theorem getLeft?_inl {α β : Type} (l : List α) : (l.map (Sum.inl : α → α ⊕ β)).filterMap Sum.getLeft? = l := by
  rw [List.filterMap_map]
  exact List.filterMap_some

theorem getRight?_inr {α β : Type} (l : List β) : (l.map (Sum.inr : β → α ⊕ β)).filterMap Sum.getRight? = l := by
  rw [List.filterMap_map]
  exact List.filterMap_some

theorem elim_inl {α : Type} (l : List α) : (l.map Sum.inl).map (Sum.elim (id : α → α) (id : α → α)) = l := by
  rw [List.map_map, Sum.elim_comp_inl, List.map_id]

theorem elim_inr {α : Type} (l : List α) : (l.map Sum.inr).map (Sum.elim (id : α → α) (id : α → α)) = l := by
  rw [List.map_map, Sum.elim_comp_inr, List.map_id]

variable {e : Engine} {log : List (Entry GpuTexture ⊕ Entry GpuTexture)} {calls : List (Entry GpuTexture)}
  {s : Services}

theorem Accounts.change (h : e.Accounts log) (hs : s.uploader = e.services.uploader) :
    Accounts { e with services := s } log := by
  obtain ⟨hcalls, htextures, hcubemaps, hmaterials⟩ := h
  rw [← hs] at hcalls
  exact ⟨hcalls, htextures, hcubemaps, hmaterials⟩

theorem Accounts.leads_textures (h : e.Accounts log) {t : TextureTable}
    (hleads : TexturesLeadBy calls (e.textures, e.services) (t, s)) :
    Accounts { e with textures := t, services := s } (log ++ calls.map .inl) := by
  obtain ⟨trace, hrun, hlog⟩ := h.textures
  obtain ⟨more, hmore, hcalls, hentries⟩ := hleads 0
  obtain ⟨cubes, hcubes, hright⟩ := h.cubemaps
  rw [hentries] at hcalls
  refine ⟨?_, ⟨trace ++ more, hrun.append hmore, ?_⟩, ⟨cubes, hcubes, ?_⟩, h.materials⟩
  · rw [List.map_append, elim_inl]
    exact h.calls.append hcalls
  · rw [List.flatMap_append, hlog, hentries, List.filterMap_append, getLeft?_inl]
  · simp [hright, List.filterMap_map]

theorem Accounts.leads_cubemaps (h : e.Accounts log) {t : CubemapTable}
    (hleads : LeadsBy (.ofPath missingCubemap) Services.Notes calls (e.cubemaps, e.services) (t, s)) :
    Accounts { e with cubemaps := t, services := s } (log ++ calls.map .inr) := by
  obtain ⟨trace, hrun, hlog⟩ := h.cubemaps
  obtain ⟨more, hmore, hcalls, hentries⟩ := hleads 0
  obtain ⟨textures, htextures, hleft⟩ := h.textures
  rw [hentries] at hcalls
  refine ⟨?_, ⟨textures, htextures, ?_⟩, ⟨trace ++ more, hrun.append hmore, ?_⟩, h.materials⟩
  · rw [List.map_append, elim_inr]
    exact h.calls.append hcalls
  · simp [hleft, List.filterMap_map]
  · rw [List.flatMap_append, hlog, hentries, List.filterMap_append, getRight?_inr]

theorem ofServices_uploader (s : Services) : (ofServices s).services.uploader = s.uploader := by
  rfl

theorem callsOf_materials (e : Engine) (op : Op AssetId) :
    TexturesLeadBy (e.callsOf .materials op) (e.textures, e.services)
      (materialLoader.perform op (e.materials, e.textures, e.services)).2 := by
  have hsame : ((e.textures, e.services), ([] : List (Entry GpuTexture))).1 = (e.textures, e.services) := rfl
  obtain ⟨_, hrest⟩ := (materialLoader.logging_mirrors (alongLoad textureCalls)).perform hsame op e.materials
  obtain ⟨_, _, calls, hleads, hlog⟩ :=
    materialCaller_tallies.orderly.perform op (e.materials, (e.textures, e.services), []) 0
  have hcalls : e.callsOf .materials op = calls := hlog
  rw [hcalls, ← hrest]
  exact hleads

theorem UsedBy.accounts (h : e.UsedBy calls) : ∃ log, e.Accounts log ∧ log.map (Sum.elim id id) = calls := by
  induction h with
  | @start s hs =>
      refine ⟨[], ⟨?_, ⟨[], .nil _, rfl⟩, ⟨[], .nil _, rfl⟩, Table.settled_empty _⟩, rfl⟩
      rw [ofServices_uploader, hs]
      exact .nil _
  | @perform e calls _ table op ih =>
      obtain ⟨log, hlog, rfl⟩ := ih
      cases table with
      | textures =>
          rw [perform_textures]
          refine ⟨_, hlog.leads_textures (textureLoader_tallies.perform op (e.textures, e.services)), ?_⟩
          rw [List.map_append, elim_inl]
          rfl
      | materials =>
          have hmaterials := hlog.materials.leads
            (materialLoader_orderly.perform op (e.materials, e.textures, e.services))
          obtain ⟨hcalls, htextures, hcubemaps, _⟩ := hlog.leads_textures (e.callsOf_materials op)
          rw [perform_materials]
          refine ⟨_, ⟨hcalls, htextures, hcubemaps, hmaterials⟩, ?_⟩
          rw [List.map_append, elim_inl]
      | cubemaps =>
          rw [perform_cubemaps]
          refine ⟨_, hlog.leads_cubemaps (cubemapLoader_tallies.perform op (e.cubemaps, e.services)), ?_⟩
          rw [List.map_append, elim_inr]
          rfl
  | change _ hs ih =>
      obtain ⟨log, hlog, hcalls⟩ := ih
      exact ⟨log, hlog.change hs, hcalls⟩

end Accounts

end Engine

end FrameEngine
