import FrameEngine.Engine.Context
import FrameEngine.Proofs.Slots.Attendance
import FrameEngine.Proofs.Slots.Mirrors
import FrameEngine.Proofs.Texture.Uploads

namespace FrameEngine

open FrameEngine.Asset FrameEngine.Slots FrameEngine.Texture

section Maps

variable {α β : Type} {P : TextureTable × Services → Option SlotError → TextureTable × Services → Prop}

def errorOf : Except SlotError α → Option SlotError
  | .ok _ => none
  | .error cause => some cause

/-- What goes on at the texture table: `P` relates what there was before to the error, if there is one, and
to what there is after. -/
structure Tracks (P : TextureTable × Services → Option SlotError → TextureTable × Services → Prop) : Prop where
  refl : ∀ w, P w none w
  trans : ∀ {w w' w'' cause}, P w none w' → P w' cause w'' → P w cause w''
  register : ∀ textures s path, P (textures, s) none (textures, (s.register path).2)
  markLinear : ∀ textures s id, P (textures, s) none (textures, s.markLinear id)
  load : ∀ id w, P w (errorOf (textureLoader.loadOrGet id w).1) (textureLoader.loadOrGet id w).2

def Mapping.Meets (P : TextureTable × Services → Option SlotError → TextureTable × Services → Prop)
    (m : Mapping α) : Prop :=
  ∀ w, P w (errorOf (m.run w).1) (m.run w).2

theorem bind_apply {σ : Type} (m : StateM σ α) (f : α → StateM σ β) (w : σ) :
    (m >>= f) w = f (m w).1 (m w).2 := rfl

theorem run_bind (m : Mapping α) (f : α → Mapping β) (w : TextureTable × Services) :
    (m >>= f).run w = match m.run w with
      | (.ok a, w') => (f a).run w'
      | (.error cause, w') => (.error cause, w') := by
  rw [ExceptT.run_bind, bind_apply]
  rcases m.run w with ⟨_ | a, w'⟩ <;> rfl

theorem run_mapSlot (path : String) (isLinear : Bool) (textures : TextureTable) (s : Services) :
    (mapSlot (some path) isLinear).run (textures, s) =
      let (id, s) := s.register path
      let s := if isLinear then s.markLinear id else s
      match textureLoader.loadOrGet id (textures, s) with
      | (.ok slot, w) => (.ok (UInt32.ofNat slot), w)
      | (.error cause, w) => (.error cause, w) := by
  have hget : (get : Mapping _).run (textures, s) = (.ok (textures, s), (textures, s)) := rfl
  have hset (v w) : (set v : Mapping Unit).run w = (.ok (), v) := rfl
  rw [mapSlot]
  simp only [run_bind, hget, hset]
  rcases textureLoader.loadOrGet (s.register path).1 _ with ⟨_ | slot, w⟩ <;> rfl

namespace Tracks

theorem pure (hP : Tracks P) (a : α) : Mapping.Meets P (Pure.pure a) := fun w => hP.refl w

theorem bind (hP : Tracks P) {m : Mapping α} {f : α → Mapping β} (hm : Mapping.Meets P m)
    (hf : ∀ a, Mapping.Meets P (f a)) : Mapping.Meets P (m >>= f) := by
  intro w
  have hfirst := hm w
  rw [run_bind]
  rcases hrun : m.run w with ⟨cause | a, w'⟩
  · rwa [hrun] at hfirst
  · rw [hrun] at hfirst
    exact hP.trans hfirst (hf a w')

theorem mapSlot (hP : Tracks P) (path : Option String) (isLinear : Bool) :
    Mapping.Meets P (mapSlot path isLinear) := by
  intro ⟨textures, s⟩
  cases path with
  | none => exact hP.refl _
  | some path =>
      have hmarked : P (textures, s) none (textures,
          if isLinear then (s.register path).2.markLinear (s.register path).1 else (s.register path).2) := by
        by_cases h : isLinear
        · rw [if_pos h]
          exact hP.trans (hP.register textures s path) (hP.markLinear _ _ _)
        · rw [if_neg h]
          exact hP.register textures s path
      have hload := hP.trans hmarked (hP.load (s.register path).1 _)
      rw [run_mapSlot]
      dsimp only
      split
      next heq => rwa [heq] at hload
      next heq => rwa [heq] at hload

theorem mapSlots (hP : Tracks P) (document : Material.Document) : Mapping.Meets P (mapSlots document) := by
  rw [FrameEngine.mapSlots]
  refine hP.bind (hP.mapSlot _ _) fun _ => hP.bind (hP.mapSlot _ _) fun _ => hP.bind (hP.mapSlot _ _) fun _ => ?_
  split
  · exact hP.bind (hP.mapSlot _ _) fun _ => hP.pure _
  · exact hP.bind (hP.mapSlot _ _) fun _ => hP.bind (hP.mapSlot _ _) fun _ => hP.bind (hP.mapSlot _ _) fun _ =>
      hP.pure _

theorem loadMaterial {R : TextureTable × Services → TextureTable × Services → Prop}
    (hR : Tracks fun w _ w' => R w w') (id : AssetId) (w : TextureTable × Services) : R w (loadMaterial id w).2 := by
  rw [FrameEngine.loadMaterial]
  split
  · exact hR.refl w
  next document _ =>
    have hmaps := hR.mapSlots document w
    split
    next hrun => rwa [hrun] at hmaps
    next hrun => rwa [hrun] at hmaps

end Tracks

end Maps

def Services.Notes (s : Services) (calls : List (Entry GpuTexture)) (s' : Services) : Prop :=
  Uploader.Calls s.uploader calls s'.uploader

section Orderly

theorem ledger_notes : Ledger Services.Notes := ⟨fun s => .nil s.uploader, .append⟩

theorem notes_of_eq {s s' : Services} (h : s'.uploader = s.uploader) : s.Notes [] s' := by
  rw [Services.Notes, h]
  exact .nil _

theorem loadTexture_notes (id : AssetId) (s : Services) :
    s.Notes (entriesOfLoad (s.loadTexture id).1) (s.loadTexture id).2 := by
  rw [Services.loadTexture]
  split
  · exact notes_of_eq rfl
  · split
    · exact notes_of_eq rfl
    · split
      · exact notes_of_eq rfl
      next hmade => exact .upload (.inl ⟨_, _, hmade⟩) (.nil _)

theorem registerFaces_uploader (s : Services) (paths : Vector String Cubemap.faceCount) :
    (s.registerFaces paths).uploader = s.uploader := by
  rw [Services.registerFaces]
  generalize paths.toList = paths
  induction paths generalizing s with
  | nil => rfl
  | cons path paths ih => exact ih _

theorem decodeFaces_uploader (paths : Vector String Cubemap.faceCount) (s : Services) :
    (s.decodeFaces paths).2.uploader = s.uploader := by
  rw [Services.decodeFaces]
  split
  · rfl
  · exact registerFaces_uploader s paths

theorem assembleFaces_uploader (faces : Vector TextureData Cubemap.faceCount) (s : Services) :
    (s.assembleFaces faces).2.uploader = s.uploader := by
  rw [Services.assembleFaces]
  split
  · rfl
  · split <;> rfl

theorem cubemapData_uploader (id : AssetId) (s : Services) : (s.cubemapData id).2.uploader = s.uploader := by
  rw [Services.cubemapData]
  split
  · rfl
  · split
    · rfl
    next paths _ =>
      have hdecode := decodeFaces_uploader paths s
      split
      next heq => rwa [heq] at hdecode
      next heq =>
        rw [heq] at hdecode
        exact (assembleFaces_uploader _ _).trans hdecode

theorem loadCubemap_notes (id : AssetId) (s : Services) :
    s.Notes (entriesOfLoad (s.loadCubemap id).1) (s.loadCubemap id).2 := by
  have hdata := cubemapData_uploader id s
  rw [Services.loadCubemap]
  split
  next heq =>
    rw [heq] at hdata
    exact notes_of_eq hdata
  next heq =>
    rw [heq] at hdata
    split
    · exact notes_of_eq hdata
    next hmade =>
      rw [hdata] at hmade
      exact .upload (.inr ⟨_, _, hmade⟩) (.nil _)

theorem destroy_notes (texture : GpuTexture) (s : Services) : s.Notes [.given texture] (s.destroy texture) :=
  .destroy texture (.nil _)

/-- What is noted of slots is no concern of the uploader. -/
theorem note_notes (event : Event) (s : Services) : s.Notes (entriesOfNote event) (s.note event) := by
  cases event with
  | unloaded table slot => exact .unloaded slot (.nil _)
  | _ => exact notes_of_eq rfl

theorem textureLoader_tallies : textureLoader.Tallies Services.Notes where
  ledger := ledger_notes
  release := destroy_notes
  note := note_notes
  load id _ s := ⟨(s.loadTexture id).1, (s.loadTexture id).2, rfl, loadTexture_notes id s⟩

theorem textureLoader_orderly : textureLoader.Orderly Services.Notes := textureLoader_tallies.orderly

theorem cubemapLoader_tallies : cubemapLoader.Tallies Services.Notes where
  ledger := ledger_notes
  release := destroy_notes
  note := note_notes
  load id _ s := ⟨(s.loadCubemap id).1, (s.loadCubemap id).2, rfl, loadCubemap_notes id s⟩

theorem cubemapLoader_orderly : cubemapLoader.Orderly Services.Notes := cubemapLoader_tallies.orderly

abbrev TexturesLead := Leads (σ := Services) (.ofPath missingTexture) Services.Notes (κ := AssetId) (N := textureSlots)

theorem tracks_leads : Tracks fun w _ w' => TexturesLead w w' where
  refl w := .refl ledger_notes w
  trans h h' := h.trans ledger_notes h'
  register _ _ _ := leads_of_rest (notes_of_eq rfl)
  markLinear _ _ _ := leads_of_rest (notes_of_eq rfl)
  load id w := textureLoader_orderly.loadOrGet id w

theorem loadMaterial_leads (id : AssetId) (w : TextureTable × Services) :
    TexturesLead w (loadMaterial id w).2 :=
  tracks_leads.loadMaterial id w

theorem materialLoader_orderly : materialLoader.Orderly fun w _ w' => TexturesLead w w' where
  ledger := ⟨.refl ledger_notes, .trans ledger_notes⟩
  release _ w := .refl ledger_notes w
  note _ _ := leads_of_rest (notes_of_eq rfl)
  load id w := ⟨(loadMaterial id w.2).1, w.1, w.2, (loadMaterial id w.2).2, rfl,
    .refl ⟨.refl ledger_notes, .trans ledger_notes⟩ w, loadMaterial_leads id w.2⟩

end Orderly

namespace Engine

def perform (e : Engine) (table : TableName) (op : Op AssetId) : Engine :=
  match op with
  | .load id => (e.loadOrGet table id).2
  | .unload slot => (e.unload table slot).2
  | .unloadAll => e.unloadAll table

theorem perform_textures (e : Engine) (op : Op AssetId) : e.perform .textures op =
    let w := textureLoader.perform op (e.textures, e.services)
    { e with textures := w.1, services := w.2 } := by
  cases op with
  | load id | unload slot => rfl
  | unloadAll => rw [perform, unloadAll, Loader.perform]

theorem perform_materials (e : Engine) (op : Op AssetId) : e.perform .materials op =
    let w := materialLoader.perform op (e.materials, e.textures, e.services)
    { e with materials := w.1, textures := w.2.1, services := w.2.2 } := by
  cases op with
  | load id | unload slot => rfl
  | unloadAll => rw [perform, unloadAll, Loader.perform]

theorem perform_cubemaps (e : Engine) (op : Op AssetId) : e.perform .cubemaps op =
    let w := cubemapLoader.perform op (e.cubemaps, e.services)
    { e with cubemaps := w.1, services := w.2 } := by
  cases op with
  | load id | unload slot => rfl
  | unloadAll => rw [perform, unloadAll, Loader.perform]

/-- What operations, one after another, make of an engine with a new uploader. In between, anything may
change but the tables and the uploader. -/
inductive Used : Engine → Prop
  | start {s : Services} (hs : s.uploader = {}) : Used (ofServices s)
  | perform {e : Engine} (h : Used e) (table) (op) : Used (e.perform table op)
  | change {e : Engine} (h : Used e) {s : Services} (hs : s.uploader = e.services.uploader) :
      Used { e with services := s }

def performAll (e : Engine) (ops : List (TableName × Op AssetId)) : Engine :=
  ops.foldl (fun e op => e.perform op.1 op.2) e

theorem Used.performAll {e : Engine} (h : Used e) (ops : List (TableName × Op AssetId)) :
    Used (e.performAll ops) := by
  induction ops generalizing e with
  | nil => exact h
  | cons op ops ih => exact ih (h.perform op.1 op.2)

end Engine

def pixelFile : ByteArray :=
  ⟨#[137, 80, 78, 71, 13, 10, 26, 10, 0, 0, 0, 13, 73, 72, 68, 82, 0, 0, 0, 1, 0, 0, 0, 1, 8, 6, 0, 0, 0, 31,
    21, 196, 137, 0, 0, 0, 16, 73, 68, 65, 84, 120, 1, 1, 5, 0, 250, 255, 0, 255, 0, 255, 255, 6, 254, 2, 254,
    239, 93, 177, 124, 0, 0, 0, 0, 73, 69, 78, 68, 174, 66, 96, 130]⟩

def textFile (text : String) : ByteArray := ⟨(text.toList.flatMap String.utf8EncodeChar).toArray⟩

/-- Everything that stands in for missing assets is there. The material's own texture is not. -/
def pixelServices : Services where
  assets := [(missingTexture, pixelFile), (missingMaterial, textFile "\x7b\"albedoPath\": \"brick.png\"\x7d"),
    (missingCubemap, textFile "[\"sky.png\", \"sky.png\", \"sky.png\", \"sky.png\", \"sky.png\", \"sky.png\"]"),
    ("sky.png", pixelFile)].foldl (fun db entry => (db.insertBytes entry.1 entry.2).2) {}
  jobs := { workers := 1, held := [false] }

end FrameEngine
