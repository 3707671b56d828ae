import FrameEngine.Proofs.Engine.Use
import FrameEngine.Proofs.Slots.Growth

namespace FrameEngine

open FrameEngine.Asset FrameEngine.Material FrameEngine.Slots FrameEngine.Texture

section Maps

def LiveIndex (textures : TextureTable) (index : UInt32) : Prop :=
  index = noTexture ∨ ∃ slot id, index.toNat = slot.val ∧ textures.states.get slot = .resident id

abbrev TexturesGrow (w w' : TextureTable × Services) : Prop :=
  w.1.Settled (.ofPath missingTexture) → w.1.GrowsTo (.ofPath missingTexture) w'.1

variable {textures textures' : TextureTable} {w w' w'' : TextureTable × Services} {index : UInt32}

theorem LiveIndex.grow (h : LiveIndex textures index) (ht : textures.Settled (.ofPath missingTexture))
    (hgrows : textures.GrowsTo (.ofPath missingTexture) textures') : LiveIndex textures' index := by
  refine h.imp_right ?_
  rintro ⟨slot, id, hindex, hs⟩
  exact ⟨slot, id, hindex, (hgrows.resident ht hs).1⟩

theorem TexturesGrow.trans (h : TexturesGrow w w') (h' : TexturesGrow w' w'') : TexturesGrow w w'' :=
  fun hw => (h hw).trans (h' ((h hw).settled hw))

theorem textureLoader_detached : textureLoader.Detached fun _ _ => True where
  refl _ := trivial
  trans _ _ := trivial
  note _ _ := trivial
  load id _ s := ⟨(s.loadTexture id).1, (s.loadTexture id).2, rfl, trivial⟩

theorem cubemapLoader_detached : cubemapLoader.Detached fun _ _ => True where
  refl _ := trivial
  trans _ _ := trivial
  note _ _ := trivial
  load id _ s := ⟨(s.loadCubemap id).1, (s.loadCubemap id).2, rfl, trivial⟩

theorem tracks_grow : Tracks fun w _ w' => TexturesGrow w w' where
  refl w _ := .refl w.1
  trans := .trans
  register _ _ _ _ := .refl _
  markLinear _ _ _ _ := .refl _
  load id w hw := (textureLoader_detached.loadOrGet hw id w.2).1.grows

theorem loadMaterial_grows (id : AssetId) (w : TextureTable × Services) : TexturesGrow w (loadMaterial id w).2 :=
  tracks_grow.loadMaterial id w

theorem materialLoader_detached : materialLoader.Detached TexturesGrow where
  refl w _ := .refl w.1
  trans := .trans
  note _ w _ := .refl w.1
  load id _ w := ⟨(loadMaterial id w).1, (loadMaterial id w).2, rfl, loadMaterial_grows id w⟩

section Run

variable {α β : Type}

theorem run_bind_ok {m : Mapping α} {f : α → Mapping β} {b : β} (h : (m >>= f).run w = (.ok b, w'')) :
    ∃ a w', m.run w = (.ok a, w') ∧ (f a).run w' = (.ok b, w'') := by
  rw [run_bind] at h
  rcases hrun : m.run w with ⟨cause | a, w'⟩
  · rw [hrun] at h
    cases h
  · rw [hrun] at h
    exact ⟨a, w', rfl, h⟩

structure Found (w : TextureTable × Services) (indices : List UInt32) : Prop where
  settled : w.1.Settled (.ofPath missingTexture)
  live : ∀ index ∈ indices, LiveIndex w.1 index

theorem Found.grow {indices : List UInt32} (h : Found w indices) (hgrows : TexturesGrow w w') : Found w' indices where
  settled := (hgrows h.settled).settled h.settled
  live index hindex := (h.live index hindex).grow h.settled (hgrows h.settled)

theorem Found.subset {indices others : List UInt32} (h : Found w indices)
    (hothers : ∀ index ∈ others, index = noTexture ∨ index ∈ indices) : Found w others where
  settled := h.settled
  live index hindex := (hothers index hindex).elim .inl (h.live index)

theorem Found.mapSlot {indices : List UInt32} (h : Found w indices) {path : Option String} {isLinear : Bool}
    (hrun : (mapSlot path isLinear).run w = (.ok index, w')) : Found w' (index :: indices) := by
  have hgrows : TexturesGrow w w' := by
    have hmeets := tracks_grow.mapSlot path isLinear w
    rwa [hrun] at hmeets
  obtain ⟨hsettled, hlive⟩ := h.grow hgrows
  refine ⟨hsettled, List.forall_mem_cons.mpr ⟨?_, hlive⟩⟩
  cases path with
  | none =>
      cases hrun
      exact .inl rfl
  | some path =>
      obtain ⟨textures, s⟩ := w
      rw [run_mapSlot] at hrun
      dsimp only at hrun
      split at hrun
      next slot w'' hload =>
        cases hrun
        obtain ⟨_, hserves⟩ := textureLoader_detached.loadOrGet h.settled (s.register path).1
          (if isLinear then (s.register path).2.markLinear (s.register path).1 else (s.register path).2)
        rw [hload] at hserves
        obtain ⟨id, _, hs⟩ := hserves slot rfl
        have hlt : slot.val < UInt32.size := Nat.lt_trans slot.isLt (by decide)
        exact .inr ⟨slot, id, UInt32.toNat_ofNat_of_lt hlt, hs⟩
      · cases hrun

/-- The indices in a material are all found in the end, however the textures come in. -/
theorem Found.mapSlots {document : Document} {maps : Document.Maps} (h : Found w [])
    (hrun : (mapSlots document).run w = (.ok maps, w')) :
    Found w' (document.material maps).packed.textures := by
  rw [FrameEngine.mapSlots] at hrun
  obtain ⟨albedo, w₁, halbedo, hrun⟩ := run_bind_ok hrun
  obtain ⟨normal, w₂, hnormal, hrun⟩ := run_bind_ok hrun
  obtain ⟨heightmap, w₃, hheightmap, hrun⟩ := run_bind_ok hrun
  have hfirst := ((h.mapSlot halbedo).mapSlot hnormal).mapSlot hheightmap
  split at hrun
  · obtain ⟨rough, w₄, hrough, hrun⟩ := run_bind_ok hrun
    cases hrun
    exact (hfirst.mapSlot hrough).subset (by simp [Document.material, Packed.textures])
  · obtain ⟨metal, w₄, hmetal, hrun⟩ := run_bind_ok hrun
    obtain ⟨rough, w₅, hrough, hrun⟩ := run_bind_ok hrun
    obtain ⟨occlusion, w₆, hocclusion, hrun⟩ := run_bind_ok hrun
    cases hrun
    have hall := ((hfirst.mapSlot hmetal).mapSlot hrough).mapSlot hocclusion
    exact hall.subset (by simp [Document.material, Packed.textures])

theorem found_of_loadMaterial {id : AssetId} {material : Material} (hw : w.1.Settled (.ofPath missingTexture))
    (hload : loadMaterial id w = (.ok material, w')) : Found w' material.packed.textures := by
  rw [loadMaterial] at hload
  split at hload
  · cases hload
  next document _ =>
    split at hload
    next maps w₁ hrun =>
      cases hload
      exact Found.mapSlots ⟨hw, by simp⟩ hrun
    · cases hload

end Run

end Maps

namespace Engine

structure Settled (e : Engine) : Prop where
  textures : e.textures.Settled (.ofPath missingTexture)
  materials : e.materials.Settled (.ofPath missingMaterial)
  cubemaps : e.cubemaps.Settled (.ofPath missingCubemap)

structure GrowsTo (e e' : Engine) : Prop where
  textures : e.textures.GrowsTo (.ofPath missingTexture) e'.textures
  materials : e.materials.GrowsTo (.ofPath missingMaterial) e'.materials
  cubemaps : e.cubemaps.GrowsTo (.ofPath missingCubemap) e'.cubemaps

def Holds (e : Engine) (table : TableName) (id : AssetId) (slot : Nat) : Prop :=
  match table with
  | .textures => e.textures.Finds id slot
  | .materials => e.materials.Finds id slot
  | .cubemaps => e.cubemaps.Finds id slot

def Preserves (e e' : Engine) : Prop := ∀ ⦃table id slot⦄, e.Holds table id slot → e'.Holds table id slot

def Linked (e : Engine) : Prop :=
  ∀ s material, e.materials.contents.get s = some material → ∀ index ∈ material.packed.textures,
    LiveIndex e.textures index

/-- What may happen to an engine while nothing is unloaded: assets are loaded, and services change in any way. -/
inductive Continues (e : Engine) : Engine → Prop
  | rest : e.Continues e
  | load {e'} (h : e.Continues e') (table : TableName) (id : AssetId) : e.Continues (e'.loadOrGet table id).2
  | change {e'} (h : e.Continues e') (s : Services) : e.Continues { e' with services := s }

variable {e e' e'' : Engine} {table : TableName} {id : AssetId} {slot : Nat}

section Settled

theorem settled_ofServices (s : Services) : (ofServices s).Settled :=
  ⟨Table.settled_empty _, Table.settled_empty _, Table.settled_empty _⟩

theorem Settled.change (h : e.Settled) (s : Services) : Settled { e with services := s } :=
  ⟨h.textures, h.materials, h.cubemaps⟩

theorem Settled.perform (h : e.Settled) (table : TableName) (op : Op AssetId) : (e.perform table op).Settled := by
  cases table with
  | textures =>
      rw [perform_textures]
      exact ⟨h.textures.leads (textureLoader_orderly.perform op _), h.materials, h.cubemaps⟩
  | materials =>
      have hleads := materialLoader_orderly.perform op (e.materials, e.textures, e.services)
      obtain ⟨_, _, htextures⟩ := hleads 0
      rw [perform_materials]
      exact ⟨h.textures.leads htextures, h.materials.leads hleads, h.cubemaps⟩
  | cubemaps =>
      rw [perform_cubemaps]
      exact ⟨h.textures, h.materials, h.cubemaps.leads (cubemapLoader_orderly.perform op _)⟩

/-- Also engines from which assets were unloaded are in order. -/
theorem Used.settled (h : e.Used) : e.Settled := by
  induction h with
  | start => exact settled_ofServices _
  | perform _ table op ih => exact ih.perform table op
  | change => rename_i ih; exact ih.change _

end Settled

section Grows

theorem GrowsTo.refl (e : Engine) : e.GrowsTo e := ⟨.refl _, .refl _, .refl _⟩

theorem GrowsTo.trans (h : e.GrowsTo e') (h' : e'.GrowsTo e'') : e.GrowsTo e'' :=
  ⟨h.textures.trans h'.textures, h.materials.trans h'.materials, h.cubemaps.trans h'.cubemaps⟩

theorem GrowsTo.settled (h : e.GrowsTo e') (he : e.Settled) : e'.Settled :=
  ⟨h.textures.settled he.textures, h.materials.settled he.materials, h.cubemaps.settled he.cubemaps⟩

theorem GrowsTo.preserves (h : e.GrowsTo e') (he : e.Settled) : e.Preserves e' := by
  intro table id slot hheld
  cases table with
  | textures => exact Table.Finds.grow hheld he.textures h.textures
  | materials => exact Table.Finds.grow hheld he.materials h.materials
  | cubemaps => exact Table.Finds.grow hheld he.cubemaps h.cubemaps

theorem Holds.loadOrGet (h : e.Holds table id slot) : e.loadOrGet table id = (.ok slot, e) := by
  cases table with
  | textures =>
      obtain ⟨s, rfl, hs⟩ := Table.Finds.loadOrGet h textureLoader e.services
      rw [Engine.loadOrGet, hs]
      rfl
  | materials =>
      obtain ⟨s, rfl, hs⟩ := Table.Finds.loadOrGet h materialLoader (e.textures, e.services)
      rw [Engine.loadOrGet, hs]
      rfl
  | cubemaps =>
      obtain ⟨s, rfl, hs⟩ := Table.Finds.loadOrGet h cubemapLoader e.services
      rw [Engine.loadOrGet, hs]
      rfl

theorem Settled.loadOrGet (h : e.Settled) (table : TableName) (id : AssetId) :
    e.GrowsTo (e.loadOrGet table id).2 ∧
      ∀ slot, (e.loadOrGet table id).1 = .ok slot → (e.loadOrGet table id).2.Holds table id slot := by
  cases table with
  | textures =>
      have hfills := (textureLoader_detached.loadOrGet h.textures id e.services).1
      exact ⟨⟨hfills.grows, .refl _, .refl _⟩, fun slot hslot => textureLoader_detached.finds h.textures hslot⟩
  | materials =>
      -- a material brings its textures along
      have hfills := (materialLoader_detached.loadOrGet h.materials id (e.textures, e.services)).1
      exact ⟨⟨hfills.goesOn h.textures, hfills.grows, .refl _⟩,
        fun slot hslot => materialLoader_detached.finds h.materials hslot⟩
  | cubemaps =>
      have hfills := (cubemapLoader_detached.loadOrGet h.cubemaps id e.services).1
      exact ⟨⟨.refl _, .refl _, hfills.grows⟩, fun slot hslot => cubemapLoader_detached.finds h.cubemaps hslot⟩

end Grows

section Linked

theorem linked_ofServices (s : Services) : (ofServices s).Linked := by
  intro slot material hslot
  simp [ofServices, Table.empty, Vector.get] at hslot

theorem Linked.loadOrGet (hl : e.Linked) (h : e.Settled) (table : TableName) (id : AssetId) :
    (e.loadOrGet table id).2.Linked := by
  have hgrows := (h.loadOrGet table id).1
  intro s material hs index hindex
  have hkept (hbefore : e.materials.contents.get s = some material) :
      LiveIndex (e.loadOrGet table id).2.textures index :=
    (hl s material hbefore index hindex).grow h.textures hgrows.textures
  cases table with
  | textures | cubemaps => exact hkept hs
  | materials =>
      obtain ⟨hfills, _⟩ := materialLoader_detached.loadOrGet h.materials id (e.textures, e.services)
      rcases hfills.made s material hs with hbefore | ⟨key, t₀, w, w', hw, hload, hafter⟩
      · exact hkept hbefore
      -- its textures were found before the material was there, and none has gone since
      · have houtcome : (loadMaterial key w).1 = .ok material := congrArg Prod.fst hload
        have hafterwards : (loadMaterial key w).2 = w' := congrArg (·.2.2) hload
        have hmade : loadMaterial key w = (.ok material, w') := Prod.ext houtcome hafterwards
        have hfound := found_of_loadMaterial ((hw h.textures).settled h.textures) hmade
        exact (hfound.grow hafter).live index hindex

end Linked

section Continues

theorem Continues.trans (h : e.Continues e') (h' : e'.Continues e'') : e.Continues e'' := by
  induction h' with
  | rest => exact h
  | load _ table id ih => exact ih.load table id
  | change _ s ih => exact ih.change s

theorem Continues.growsTo (h : e.Continues e') (he : e.Settled) : e.GrowsTo e' := by
  induction h with
  | rest => exact .refl e
  | load _ table id ih => exact ih.trans ((ih.settled he).loadOrGet table id).1
  | change _ s ih => exact ih.trans ⟨.refl _, .refl _, .refl _⟩

theorem Continues.linked (h : e.Continues e') (he : e.Settled) (hl : e.Linked) : e'.Linked := by
  induction h with
  | rest => exact hl
  | load hbefore table id ih => exact ih.loadOrGet ((hbefore.growsTo he).settled he) table id
  | change _ s ih => exact ih

end Continues

end Engine

end FrameEngine
