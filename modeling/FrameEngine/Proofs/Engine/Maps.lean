import FrameEngine.Proofs.Asset.Registry
import FrameEngine.Proofs.Engine.Growth
import FrameEngine.Proofs.Slots.Eviction

namespace FrameEngine

open FrameEngine.Asset FrameEngine.Material FrameEngine.Slots FrameEngine.Texture

section Missing

namespace Services

def Misses (s : Services) (id : AssetId) : Prop := ∃ reason, (s.loadTexture id).1 = .error (.unavailable reason)

def SameAssets (s s' : Services) : Prop := s'.assets = s.assets ∧ s'.decoder = s.decoder

variable {s s' : Services} {id : AssetId}

theorem misses_iff : s.Misses id ↔
    (∃ cause, s.assets.read id = .error cause ∧ cause.isMissing) ∨
      ∃ bytes, s.assets.read id = .ok bytes ∧ s.decoder bytes = none := by
  rw [Misses, loadTexture]
  cases hread : s.assets.read id with
  | error cause => cases hmissing : cause.isMissing <;> simp [LoadError.ofAsset, hmissing]
  | ok bytes =>
      cases hdecode : s.decoder bytes with
      | none => simp [decode?, hdecode]
      | some image =>
          simp only [decode?, hdecode, Option.map_some]
          cases s.uploader.uploadTexture (s.assets.describe id) _ <;> simp [hdecode]

theorem misses_congr (hread : s'.assets.read id = s.assets.read id) (hdecoder : s'.decoder = s.decoder) :
    s'.Misses id ↔ s.Misses id := by
  rw [misses_iff, misses_iff, hread, hdecoder]

end Services

theorem textureLoader_sameAssets : textureLoader.Detached Services.SameAssets where
  refl _ := ⟨rfl, rfl⟩
  trans h h' := ⟨h'.1.trans h.1, h'.2.trans h.2⟩
  note _ _ := ⟨rfl, rfl⟩
  load id _ s := by
    refine ⟨(s.loadTexture id).1, (s.loadTexture id).2, rfl, ?_⟩
    rw [Services.loadTexture]
    split
    · exact ⟨rfl, rfl⟩
    · split
      · exact ⟨rfl, rfl⟩
      · split <;> exact ⟨rfl, rfl⟩

end Missing

section Used

inductive TexturesUsed : TextureTable → (AssetId → Prop) → Prop
  | start : TexturesUsed .empty fun _ => False
  | perform {t missed} (h : TexturesUsed t missed) (op : Op AssetId) (s : Services) :
      TexturesUsed (textureLoader.perform op (t, s)).1 fun id =>
        missed id ∨ op = .load id ∧ (∃ free, t.probe id = .vacant free) ∧ s.Misses id

variable {t : TextureTable} {missed : AssetId → Prop}

theorem TexturesUsed.settled (h : TexturesUsed t missed) : t.Settled (.ofPath missingTexture) := by
  induction h with
  | start => exact Table.settled_empty _
  | perform _ op s ih => exact ih.leads (textureLoader_orderly.perform op _)

theorem TexturesUsed.explained (h : TexturesUsed t missed) : t.Explained missed := by
  induction h with
  | start => simp [Table.Explained, Table.empty, Table.slotOf?]
  | @perform t missed hused op s ih =>
      have hsettled := hused.settled
      have hkept : t.Explained fun id =>
          missed id ∨ op = .load id ∧ (∃ free, t.probe id = .vacant free) ∧ s.Misses id :=
        fun id slot hslot => (ih id slot hslot).imp_right .inl
      cases op with
      | unload n => exact Loader.unload_explained hsettled.coherent hkept textureLoader n s
      | unloadAll => exact textureLoader_orderly.unloadAll_explained hsettled hkept
      | load key =>
          intro id slot hslot
          obtain hold | hown | ⟨⟨rfl, _⟩, free, reason, s', hprobe, hload⟩ :=
            (textureLoader_detached.comes hsettled key s).mapped hslot
          · refine (hkept id slot hold).imp_left fun hstate => ?_
            exact ((textureLoader_detached.loadOrGet hsettled key s).1.grows.resident hsettled hstate).1
          · exact .inl hown
          · exact .inr (.inr ⟨rfl, ⟨free, hprobe⟩, reason, congrArg Prod.fst hload⟩)

abbrev TexturesGoOn (w w' : TextureTable × Services) : Prop :=
  ∀ missed, TexturesUsed w.1 missed → ∃ missed', TexturesUsed w'.1 missed'

theorem TexturesGoOn.refl (w : TextureTable × Services) : TexturesGoOn w w := fun missed h => ⟨missed, h⟩

theorem TexturesGoOn.trans {w w' w'' : TextureTable × Services} (h : TexturesGoOn w w') (h' : TexturesGoOn w' w'') :
    TexturesGoOn w w'' := by
  intro missed hw
  obtain ⟨missed', hw'⟩ := h missed hw
  exact h' missed' hw'

theorem tracks_used : Tracks fun w _ w' => TexturesGoOn w w' where
  refl := .refl
  trans := .trans
  register _ _ _ missed h := ⟨missed, h⟩
  markLinear _ _ _ missed h := ⟨missed, h⟩
  load id w _ h := ⟨_, h.perform (.load id) w.2⟩

theorem materialLoader_used : materialLoader.Orderly fun w _ w' => TexturesGoOn w w' where
  ledger := ⟨.refl, .trans⟩
  release _ := .refl
  note _ _ missed h := ⟨missed, h⟩
  load id w := ⟨(loadMaterial id w.2).1, w.1, w.2, (loadMaterial id w.2).2, rfl, .refl ⟨.refl, .trans⟩ w,
    tracks_used.loadMaterial id w.2⟩

/-- Also loads of materials are no more to the texture table than calls in a row. -/
theorem Engine.Used.texturesUsed {e : Engine} (h : e.Used) : ∃ missed, TexturesUsed e.textures missed := by
  induction h with
  | start => exact ⟨_, .start⟩
  | change => assumption
  | @perform e _ table op ih =>
      obtain ⟨missed, hused⟩ := ih
      cases table with
      | textures =>
          rw [perform_textures]
          exact ⟨_, hused.perform op e.services⟩
      | materials =>
          obtain ⟨_, _, hgoes⟩ := materialLoader_used.perform op (e.materials, e.textures, e.services) 0
          rw [perform_materials]
          exact hgoes missed hused
      | cubemaps =>
          rw [perform_cubemaps]
          exact ⟨missed, hused⟩

end Used

section Indices

/-- What it does to find a path's texture: only the path is registered, its key is given a slot, and no key is mapped
that is not held by its slot but the path's own, if nothing is there to be loaded. -/
structure Finding (path : String) (w w' : TextureTable × Services) (slot : Fin textureSlots) : Prop where
  grows : w.1.GrowsTo (.ofPath missingTexture) w'.1
  assets : w'.2.assets = (w.2.assets.register path).2
  decoder : w'.2.decoder = w.2.decoder
  given : ∃ holder, w'.1.Serves (.ofPath path) slot holder
  mapped : ∀ id slot, w'.1.slotOf? id = some slot →
    w.1.slotOf? id = some slot ∨ w'.1.states.get slot = .resident id ∨ id = .ofPath path ∧ w'.2.Misses id
  others : ∀ id, id ≠ .ofPath path → id ≠ .ofPath missingTexture → w'.1.slotOf? id = w.1.slotOf? id

inductive Indexed :
    TextureTable × Services → List (Option String) → List UInt32 → TextureTable × Services → Prop
  | nil {w} : Indexed w [] [] w
  | absent {w paths indices w'} (rest : Indexed w paths indices w') :
      Indexed w (none :: paths) (noTexture :: indices) w'
  | present {w path slot w₁ index paths indices w'} (hindex : index.toNat = slot.val) (hfirst : Finding path w w₁ slot)
      (rest : Indexed w₁ paths indices w') : Indexed w (some path :: paths) (index :: indices) w'

inductive Points (t : TextureTable) : Option String → UInt32 → Prop
  | absent : Points t none noTexture
  | present {path slot index} (hindex : index.toNat = slot.val) (hslot : t.slotOf? (.ofPath path) = some slot) :
      Points t (some path) index

/-- What shaders find at the index of a map in the end: nothing where there is no path, and else a slot with the path's
own texture, or with what stands in for it. Then the texture's load has found nothing, be it now or in a call before,
which is remembered as long as the path's key is mapped. -/
inductive Binds (missed : AssetId → Prop) (w w' : TextureTable × Services) : Option String → UInt32 → Prop
  | absent : Binds missed w w' none noTexture
  | own {path index} {slot : Fin textureSlots} (hindex : index.toNat = slot.val)
      (hs : w'.1.states.get slot = .resident (.ofPath path)) : Binds missed w w' (some path) index
  | standIn {path index} {slot : Fin textureSlots} (hindex : index.toNat = slot.val)
      (hs : w'.1.states.get slot = .resident (.ofPath missingTexture))
      (hmissed : w.1.slotOf? (.ofPath path) = some slot ∧ missed (.ofPath path) ∨ w'.2.Misses (.ofPath path)) :
      Binds missed w w' (some path) index

variable {w w₁ w' : TextureTable × Services} {path : String} {paths : List (Option String)} {index : UInt32}
  {indices : List UInt32} {slot : Fin textureSlots} {id : AssetId}

theorem finding_of_mapSlot {isLinear : Bool} (hw : w.1.Settled (.ofPath missingTexture))
    (hrun : (mapSlot (some path) isLinear).run w = (.ok index, w')) :
    ∃ slot : Fin textureSlots, index.toNat = slot.val ∧ Finding path w w' slot := by
  obtain ⟨t, s⟩ := w
  rw [run_mapSlot] at hrun
  dsimp only at hrun
  -- to mark the texture as linear changes nothing that is read or decoded
  generalize hs : (if isLinear then (s.register path).2.markLinear (s.register path).1 else (s.register path).2) = s₁
    at hrun
  have hassets : s₁.assets = (s.assets.register path).2 := by
    rw [← hs]
    cases isLinear <;> rfl
  have hdecoder : s₁.decoder = s.decoder := by
    rw [← hs]
    cases isLinear <;> rfl
  have hid : (s.register path).1 = .ofPath path := s.assets.register_fst path
  rw [hid] at hrun
  have hcomes := textureLoader_sameAssets.comes hw (.ofPath path) s₁
  obtain ⟨hfills, hserves⟩ := textureLoader_sameAssets.loadOrGet hw (.ofPath path) s₁
  rcases hload : textureLoader.loadOrGet (.ofPath path) (t, s₁) with ⟨cause | slot, t', s'⟩
  · rw [hload] at hrun
    cases hrun
  · rw [hload] at hrun hcomes hfills hserves
    cases hrun
    have hlt : slot.val < UInt32.size := Nat.lt_trans slot.isLt (by decide)
    have hsame : s'.assets = s₁.assets := hfills.goesOn.1
    refine ⟨slot, UInt32.toNat_ofNat_of_lt hlt, hfills.grows, hsame.trans hassets,
      hfills.goesOn.2.trans hdecoder, hserves slot rfl, fun id slot' hslot' => ?_, fun id => hcomes.others⟩
    obtain hold | hown | ⟨⟨rfl, _⟩, _, reason, _, _, hnothing⟩ := hcomes.mapped hslot'
    · exact .inl hold
    · exact .inr (.inl hown)
    · refine .inr (.inr ⟨rfl, ?_⟩)
      exact (Services.misses_congr (by rw [hsame]) hfills.goesOn.2).mpr ⟨reason, congrArg Prod.fst hnothing⟩

theorem Indexed.cons {path : Option String} {isLinear : Bool} (hw : w.1.Settled (.ofPath missingTexture))
    (hrun : (mapSlot path isLinear).run w = (.ok index, w₁))
    (hrest : w₁.1.Settled (.ofPath missingTexture) → Indexed w₁ paths indices w') :
    Indexed w (path :: paths) (index :: indices) w' := by
  cases path with
  | none =>
      cases hrun
      exact .absent (hrest hw)
  | some path =>
      obtain ⟨slot, hindex, hfirst⟩ := finding_of_mapSlot hw hrun
      exact .present hindex hfirst (hrest (hfirst.grows.settled hw))

def Material.Document.mapPaths (document : Document) : List (Option String) :=
  [some document.albedoPath, document.normalMapPath, document.heightmapPath] ++
    match document.pbrMapPath with
    | some path => [none, some path, none]
    | none => [document.metalMapPath, document.roughMapPath, document.aoMapPath]

theorem indexed_of_mapSlots {document : Document} {maps : Document.Maps} (hw : w.1.Settled (.ofPath missingTexture))
    (hrun : (mapSlots document).run w = (.ok maps, w')) :
    Indexed w document.mapPaths (document.material maps).packed.textures w' := by
  rw [mapSlots] at hrun
  obtain ⟨albedo, w₁, halbedo, hrun⟩ := run_bind_ok hrun
  obtain ⟨normal, w₂, hnormal, hrun⟩ := run_bind_ok hrun
  obtain ⟨heightmap, w₃, hheightmap, hrun⟩ := run_bind_ok hrun
  have hfirst {paths indices} (hrest : w₃.1.Settled (.ofPath missingTexture) → Indexed w₃ paths indices w') :
      Indexed w (some document.albedoPath :: document.normalMapPath :: document.heightmapPath :: paths)
        (albedo :: normal :: heightmap :: indices) w' :=
    .cons hw halbedo fun hw₁ => .cons hw₁ hnormal fun hw₂ => .cons hw₂ hheightmap hrest
  rw [Document.mapPaths]
  cases hpacked : document.pbrMapPath with
  | some path =>
      rw [hpacked] at hrun
      obtain ⟨rough, w₄, hrough, hrun⟩ := run_bind_ok hrun
      cases hrun
      exact hfirst fun hw₃ => .absent (.cons hw₃ hrough fun _ => .absent .nil)
  | none =>
      rw [hpacked] at hrun
      obtain ⟨metal, w₄, hmetal, hrun⟩ := run_bind_ok hrun
      obtain ⟨rough, w₅, hrough, hrun⟩ := run_bind_ok hrun
      obtain ⟨occlusion, w₆, hocclusion, hrun⟩ := run_bind_ok hrun
      cases hrun
      exact hfirst fun hw₃ => .cons hw₃ hmetal fun hw₄ => .cons hw₄ hrough fun hw₅ => .cons hw₅ hocclusion fun _ => .nil

theorem Indexed.grows (h : Indexed w paths indices w') : w.1.GrowsTo (.ofPath missingTexture) w'.1 := by
  induction h with
  | nil => exact .refl _
  | absent _ ih => exact ih
  | present _ hfirst _ ih => exact hfirst.grows.trans ih

theorem Indexed.points (hw : w.1.Settled (.ofPath missingTexture)) (h : Indexed w paths indices w') :
    List.Forall₂ (Points w'.1) paths indices := by
  induction h with
  | nil => exact .nil
  | absent _ ih => exact .cons .absent (ih hw)
  | present hindex hfirst hrest ih =>
      have hsettled := hfirst.grows.settled hw
      obtain ⟨holder, hserves⟩ := hfirst.given
      exact .cons (.present hindex (hrest.grows.serves hsettled hserves).1.mapped) (ih hsettled)

/-- What is known, and missing, is still so when other paths have been registered. -/
theorem Indexed.misses (h : Indexed w paths indices w') (hknown : w.2.assets.contains id) (hmisses : w.2.Misses id) :
    w'.2.Misses id := by
  induction h with
  | nil => exact hmisses
  | absent _ ih => exact ih hknown hmisses
  | @present w path slot w₁ _ _ _ _ _ hfirst _ ih =>
      refine ih ?_ ?_
      · rw [hfirst.assets, Database.contains, Database.path?_register_of_contains hknown]
        exact hknown
      · refine (Services.misses_congr ?_ hfirst.decoder).mpr hmisses
        rw [hfirst.assets, Database.read_register_of_contains hknown]

theorem Indexed.mapped (hw : w.1.Settled (.ofPath missingTexture)) (h : Indexed w paths indices w')
    (hslot : w'.1.slotOf? id = some slot) :
    w.1.slotOf? id = some slot ∨ w'.1.states.get slot = .resident id ∨ w'.2.Misses id := by
  induction h with
  | nil => exact .inl hslot
  | absent _ ih => exact ih hw hslot
  | @present w path given w₁ _ _ _ _ _ hfirst hrest ih =>
      have hsettled := hfirst.grows.settled hw
      obtain hold | hlater := ih hsettled hslot
      · obtain hold | hown | ⟨rfl, hmisses⟩ := hfirst.mapped id slot hold
        · exact .inl hold
        · exact .inr (.inl (hrest.grows.resident hsettled hown).1)
        · refine .inr (.inr (hrest.misses ?_ hmisses))
          rw [hfirst.assets]
          exact Database.contains_register path
      · exact .inr hlater

/-- No other path is registered, and no other key is mapped. -/
theorem Indexed.others (h : Indexed w paths indices w') (hid : ∀ path, some path ∈ paths → id ≠ .ofPath path) :
    w'.2.assets.path? id = w.2.assets.path? id ∧
      (id ≠ .ofPath missingTexture → w'.1.slotOf? id = w.1.slotOf? id) := by
  induction h with
  | nil => exact ⟨rfl, fun _ => rfl⟩
  | absent _ ih => exact ih fun path hpath => hid path (List.mem_cons_of_mem _ hpath)
  | @present w path slot w₁ _ _ _ _ _ hfirst _ ih =>
      obtain ⟨hpath, hslot⟩ := ih fun path hpath => hid path (List.mem_cons_of_mem _ hpath)
      have hne : id ≠ .ofPath path := hid path (List.mem_cons_self ..)
      refine ⟨?_, fun hplaceholder => (hslot hplaceholder).trans (hfirst.others id hne hplaceholder)⟩
      rw [hpath, hfirst.assets, Database.path?_register_of_ne hne]

theorem Indexed.binds {missed : AssetId → Prop} (hw : TexturesUsed w.1 missed) (h : Indexed w paths indices w') :
    List.Forall₂ (Binds missed w w') paths indices := by
  refine (h.points hw.settled).imp fun path index hpoints => ?_
  cases hpoints with
  | absent => exact .absent
  | @present path slot _ hindex hslot =>
      have hanswers := (h.grows.settled hw.settled).answers hslot
      by_cases hown : w'.1.states.get slot = .resident (.ofPath path)
      · exact .own hindex hown
      · refine .standIn hindex (hanswers.resolve_left hown) ?_
        -- the key was mapped by the calls before, which explain it, or by one of these
        obtain hold | hheld | hmisses := h.mapped hw.settled hslot
        · refine .inl ⟨hold, (hw.explained _ slot hold).resolve_left fun hheld => hown ?_⟩
          exact (h.grows.resident hw.settled hheld).1
        · exact absurd hheld hown
        · exact .inr hmisses

theorem contains_packedPbr (isPacked isTested : Bool) :
    (Flags.ofWord (Flags.of isPacked isTested).bits).contains .packedPbr = isPacked := by
  cases isPacked <;> cases isTested <;> decide

/-- Where there is a packed map, the paths of what it packs make no difference. -/
theorem mapSlots_of_packed {document : Document} (h : document.pbrMapPath.isSome)
    (metal rough occlusion : Option String) :
    mapSlots { document with metalMapPath := metal, roughMapPath := rough, aoMapPath := occlusion } =
      mapSlots document := by
  obtain ⟨path, hpath⟩ := Option.isSome_iff_exists.mp h
  rw [mapSlots, mapSlots, hpath]

/-- A material that can be loaded has the indices of its document's maps: each is the slot of the path's own texture, or
of what stands in for it because it is missing. A packed map is flagged, and the paths of what it packs make no
difference. No path but the maps' own is registered, and no key but theirs and the placeholder's is mapped. However the
load ends, textures stay where they were. -/
theorem loadMaterial_binds_maps {missed : AssetId → Prop} (hw : TexturesUsed w.1 missed) (id : AssetId) :
    (∀ material w', loadMaterial id w = (.ok material, w') →
      ∃ document, materialDocument w.2 id = .ok document ∧
        List.Forall₂ (Binds missed w w') document.mapPaths material.packed.textures ∧
        material.packed.flags.contains .packedPbr = document.pbrMapPath.isSome ∧
        (document.pbrMapPath.isSome → ∀ metal rough occlusion,
          mapSlots { document with metalMapPath := metal, roughMapPath := rough, aoMapPath := occlusion } =
            mapSlots document) ∧
        ∀ other, (∀ path, some path ∈ document.mapPaths → other ≠ .ofPath path) →
          w'.2.assets.path? other = w.2.assets.path? other ∧
            (other ≠ .ofPath missingTexture → w'.1.slotOf? other = w.1.slotOf? other)) ∧
    ∀ slot holder, w.1.states.get slot = .resident holder →
      (loadMaterial id w).2.1.states.get slot = .resident holder ∧
        (loadMaterial id w).2.1.contents.get slot = w.1.contents.get slot := by
  have hgrows := loadMaterial_grows id w hw.settled
  refine ⟨fun material w' hload => ?_, fun _ _ => hgrows.resident hw.settled⟩
  rw [loadMaterial] at hload
  cases hdocument : materialDocument w.2 id with
  | error cause =>
      rw [hdocument] at hload
      cases hload
  | ok document =>
      rw [hdocument] at hload
      dsimp only at hload
      rcases hrun : (mapSlots document).run w with ⟨cause | maps, w₁⟩
      · rw [hrun] at hload
        cases hload
      · rw [hrun] at hload
        cases hload
        have hindexed := indexed_of_mapSlots hw.settled hrun
        exact ⟨document, rfl, hindexed.binds hw, contains_packedPbr _ _, mapSlots_of_packed,
          fun other hother => hindexed.others hother⟩

def brickEngine : Engine := (Engine.ofServices pixelServices).performAll [(.textures, .load (.ofPath "brick.png"))]

def brickServices : Services :=
  { pixelServices with assets := (pixelServices.assets.insertBytes "brick.json" (textFile
      "\x7b\"albedoPath\": \"brick.png\", \"metalMapPath\": \"metal.png\", \"pbrMapPath\": \"sky.png\"\x7d")).2 }

/-- What stands in for the missing texture is in slot 0, and the packed map comes into slot 1. -/
theorem loadMaterial_binds_maps_brick : ∃ missed material w', TexturesUsed brickEngine.textures missed ∧
    loadMaterial (.ofPath "brick.json") (brickEngine.textures, brickServices) = (.ok material, w') ∧
    material.packed.textures = [0, noTexture, noTexture, noTexture, 1, noTexture] ∧
    List.Forall₂ (Binds missed (brickEngine.textures, brickServices) w')
      [some "brick.png", none, none, none, some "sky.png", none] material.packed.textures ∧
    w'.2.assets.path? (.ofPath "metal.png") = none := by
  have hengine : (Engine.ofServices pixelServices).Used := .start rfl
  obtain ⟨missed, hused⟩ : ∃ missed, TexturesUsed brickEngine.textures missed :=
    (hengine.performAll [(.textures, .load (.ofPath "brick.png"))]).texturesUsed
  have hindices : (loadMaterial (.ofPath "brick.json") (brickEngine.textures, brickServices)).1.toOption.map
      (·.packed.textures) = some [0, noTexture, noTexture, noTexture, 1, noTexture] := by decide +kernel
  have hpaths : (materialDocument brickServices (.ofPath "brick.json")).toOption.map Document.mapPaths =
      some [some "brick.png", none, none, none, some "sky.png", none] := by decide +kernel
  rcases hload : loadMaterial (.ofPath "brick.json") (brickEngine.textures, brickServices) with ⟨cause | material, w'⟩
  · rw [hload] at hindices
    cases hindices
  · rw [hload] at hindices
    have hw : TexturesUsed (brickEngine.textures, brickServices).1 missed := by
      dsimp only
      exact hused
    obtain ⟨hbinds, _⟩ := loadMaterial_binds_maps hw (.ofPath "brick.json")
    obtain ⟨document, hdocument, hbound, _, _, hothers⟩ := hbinds material w' hload
    rw [hdocument] at hpaths
    have hmaps : document.mapPaths = _ := Option.some.inj hpaths
    rw [hmaps] at hbound hothers
    refine ⟨missed, material, w', hused, rfl, Option.some.inj hindices, hbound, ?_⟩
    rw [(hothers (.ofPath "metal.png") ?_).1]
    · decide +kernel
    · simp only [List.mem_cons, Option.some.injEq, reduceCtorEq, List.not_mem_nil, or_false, false_or]
      rintro path (rfl | rfl) <;> decide +kernel

end Indices

end FrameEngine
