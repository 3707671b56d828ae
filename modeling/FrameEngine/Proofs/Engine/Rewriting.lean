import FrameEngine.Proofs.Asset.Contents
import FrameEngine.Proofs.Engine.Calls
import FrameEngine.Proofs.Material.Members
import FrameEngine.Proofs.Slots.Blindness

namespace FrameEngine

open FrameEngine.Asset FrameEngine.Material FrameEngine.Slots FrameEngine.Texture

namespace Image

theorem take_of_split? {n : Nat} {bytes first rest : List UInt8} (h : split? n bytes = some (first, rest)) :
    bytes.take n = first := by
  rw [split?] at h
  obtain ⟨_, hpair⟩ := Option.ite_none_right_eq_some.mp h
  exact congrArg Prod.fst (Option.some.inj hpair)

theorem take_of_read? {bytes : List UInt8} {image : Header × List UInt8} (h : read? bytes = some image) :
    bytes.take signature.length = signature := by
  rw [read?] at h
  obtain ⟨⟨first, rest⟩, hsplit, h⟩ := Option.bind_eq_some_iff.mp h
  obtain ⟨_, hguard, _⟩ := Option.bind_eq_some_iff.mp h
  have hfirst : first = signature := by
    by_contra hne
    rw [guard, if_neg hne] at hguard
    cases hguard
  rw [take_of_split? hsplit, hfirst]

/-- No JSON value is written like an image. -/
theorem pixmap?_of_json {bytes : ByteArray} {value : Json} (h : Json.read? bytes = some value) :
    pixmap? bytes = none := by
  rw [pixmap?, Option.map_eq_none_iff, Option.eq_none_iff_forall_ne_some]
  intro image himage
  have htake := take_of_read? himage
  cases hbytes : bytes.toList with
  | nil =>
      rw [hbytes] at htake
      cases htake
  | cons byte rest =>
      rw [hbytes] at htake
      obtain rfl : byte = 0x89 := (List.cons.inj htake).1
      have hread : Json.read? bytes = none := by
        rw [Json.read?, hbytes]
        rfl
      rw [hread] at h
      cases h

end Image

/-- Services that are the same but for the content of one asset, of which neither is an image. -/
structure Services.SameBut (id : AssetId) (bytes bytes' : ByteArray) (s s' : Services) : Prop where
  assets : s.assets.SameBut id bytes bytes' s'.assets
  rest : s' = { s with assets := s'.assets }
  noImage : s.decoder bytes = none
  noImage' : s.decoder bytes' = none

section Loading

variable {α β : Type} {id : AssetId} {bytes bytes' : ByteArray} {s s' : Services}

namespace Services

theorem SameBut.split (h : s.SameBut id bytes bytes' s') :
    ∃ db, s' = { s with assets := db } ∧ s.assets.SameBut id bytes bytes' db :=
  ⟨s'.assets, h.rest, h.assets⟩

theorem SameBut.register (h : s.SameBut id bytes bytes' s') (path : String) :
    (s.register path).2.SameBut id bytes bytes' (s'.register path).2 := by
  obtain ⟨db, rfl, hassets⟩ := h.split
  exact ⟨hassets.register path, rfl, h.noImage, h.noImage'⟩

theorem SameBut.markLinear (h : s.SameBut id bytes bytes' s') (other : AssetId) :
    (s.markLinear other).SameBut id bytes bytes' (s'.markLinear other) := by
  obtain ⟨db, rfl, hassets⟩ := h.split
  exact ⟨hassets, rfl, h.noImage, h.noImage'⟩

theorem SameBut.loadTexture (h : s.SameBut id bytes bytes' s') (other : AssetId) :
    (s'.loadTexture other).1 = (s.loadTexture other).1 ∧
      (s.loadTexture other).2.SameBut id bytes bytes' (s'.loadTexture other).2 := by
  obtain ⟨db, rfl, hassets⟩ := h.split
  rw [Services.loadTexture, Services.loadTexture]
  dsimp only
  -- the two contents are read in the one case alone, and there decoding fails with the same words
  by_cases hother : other = id
  · subst hother
    have hnone (srgb : Bool) : s.decode? bytes srgb = none := by rw [decode?, h.noImage, Option.map_none]
    have hnone' (srgb : Bool) : decode? { s with assets := db } bytes' srgb = none := by
      rw [decode?, h.noImage', Option.map_none]
    rw [hassets.content, hassets.content']
    dsimp only
    rw [hnone, hnone']
    exact ⟨rfl, h⟩
  · have hread : db.read other = s.assets.read other := hassets.elsewhere [] other hother
    rw [hread]
    cases s.assets.read other with
    | error cause => exact ⟨rfl, h⟩
    | ok image =>
        have hdecode : decode? { s with assets := db } image (isSrgb { s with assets := db } other) =
            s.decode? image (s.isSrgb other) := rfl
        dsimp only
        rw [hdecode, hassets.describe]
        cases s.decode? image (s.isSrgb other) with
        | none => exact ⟨rfl, h⟩
        | some data =>
            dsimp only
            rcases s.uploader.uploadTexture _ data with cause | ⟨texture, uploader⟩
            · exact ⟨rfl, h⟩
            · exact ⟨rfl, hassets, rfl, h.noImage, h.noImage'⟩

end Services

theorem textureLoader_blind : textureLoader.BlindTo (Services.SameBut id bytes bytes') where
  describe key h := h.assets.describe key
  note event h := by
    obtain ⟨db, rfl, hassets⟩ := h.split
    exact ⟨hassets, rfl, h.noImage, h.noImage'⟩
  release resource h := by
    obtain ⟨db, rfl, hassets⟩ := h.split
    exact ⟨hassets, rfl, h.noImage, h.noImage'⟩
  load key t h := ⟨(h.loadTexture key).1, rfl, (h.loadTexture key).2⟩

def Mapping.BlindTo (R : Services → Services → Prop) (m : Mapping α) : Prop :=
  ∀ {s s'} (t : TextureTable), R s s' → Alike R (m.run (t, s)) (m.run (t, s'))

section Maps

variable {R : Services → Services → Prop}

theorem blind_pure (a : α) : Mapping.BlindTo R (pure a) := fun _ hR => ⟨rfl, rfl, hR⟩

theorem blind_bind {m : Mapping α} {f : α → Mapping β} (hm : Mapping.BlindTo R m)
    (hf : ∀ a, Mapping.BlindTo R (f a)) : Mapping.BlindTo R (m >>= f) := by
  intro s s' t hR
  obtain ⟨answer, t₁, s₁, s₁', hrun, hrun', hrest⟩ := (hm t hR).split
  rw [run_bind, run_bind, hrun, hrun']
  rcases answer with cause | a
  · exact ⟨rfl, rfl, hrest⟩
  · exact hf a t₁ hrest

end Maps

theorem Services.SameBut.withMap (h : s.SameBut id bytes bytes' s') (path : String) (isLinear : Bool) :
    (s.withMap path isLinear).SameBut id bytes bytes' (s'.withMap path isLinear) := by
  rw [Services.withMap, Services.withMap]
  cases isLinear with
  | false => exact h.register path
  | true => exact (h.register path).markLinear _

theorem blind_mapSlot (path : Option String) (isLinear : Bool) :
    (mapSlot path isLinear).BlindTo (Services.SameBut id bytes bytes') := by
  intro s s' t h
  cases path with
  | none => exact ⟨rfl, rfl, h⟩
  | some path =>
      obtain ⟨answer, t₁, s₁, s₁', hcall, hcall', hrest⟩ :=
        (textureLoader_blind.loadOrGet (h.withMap path isLinear) (.ofPath path) t).split
      rw [mapSlot_eq, mapSlot_eq, hcall, hcall']
      rcases answer with cause | slot
      · exact ⟨rfl, rfl, hrest⟩
      · exact ⟨rfl, rfl, hrest⟩

theorem blind_mapSlots (document : Document) :
    (mapSlots document).BlindTo (Services.SameBut id bytes bytes') := by
  rw [mapSlots]
  refine blind_bind (blind_mapSlot _ _) fun _ => blind_bind (blind_mapSlot _ _) fun _ =>
    blind_bind (blind_mapSlot _ _) fun _ => ?_
  cases document.pbrMapPath with
  | some path => exact blind_bind (blind_mapSlot _ _) fun _ => blind_pure _
  | none =>
      exact blind_bind (blind_mapSlot _ _) fun _ => blind_bind (blind_mapSlot _ _) fun _ =>
        blind_bind (blind_mapSlot _ _) fun _ => blind_pure _

def texturesOfLoad (asset : AssetId) (w : TextureTable × Services) : List AssetId :=
  alongLoad textureLoader.loadsBegun asset w

/-- They are those whose loads its calls for textures begin, one call after another. -/
theorem along_texturesOfLoad (asset : AssetId) (w : TextureTable × Services) :
    Along textureLoader.loadsBegun w (texturesOfLoad asset w) (loadMaterial asset w).2 :=
  along_loadMaterial asset w

theorem alongMaps_blind (maps : List (Option String × Bool)) (h : s.SameBut id bytes bytes' s') (t : TextureTable) :
    alongMaps textureLoader.loadsBegun maps (t, s') = alongMaps textureLoader.loadsBegun maps (t, s) := by
  induction maps generalizing t s s' with
  | nil => rfl
  | cons map maps ih =>
      obtain ⟨_ | path, isLinear⟩ := map
      · exact ih h t
      · have hbegun := textureLoader_blind.loadsBegun (h.withMap path isLinear) (.ofPath path) t
        obtain ⟨answer, t₁, s₁, s₁', hrun, hrun', hrest⟩ := (blind_mapSlot (some path) isLinear t h).split
        rw [alongMaps, alongMaps, hrun, hrun', hbegun]
        rcases answer with cause | index
        · rfl
        · exact congrArg (_ ++ ·) (ih hrest t₁)

/-- The load of a material depends on nothing that the explicit document does not say. -/
theorem loadMaterial_explicit (asset : AssetId) (w : TextureTable × Services) :
    loadMaterial asset w = match (materialDocument w.2 asset).map Document.explicit with
      | .error cause => (.error cause, w)
      | .ok document => match (mapSlots document).run w with
          | (.ok maps, w) => (.ok (document.material maps), w)
          | (.error cause, w) => (.error (.fatal cause), w) := by
  rw [loadMaterial]
  cases materialDocument w.2 asset with
  | error cause => rfl
  | ok document =>
      -- the explicit document has the same paths
      have hslots : mapSlots document.explicit = mapSlots document := rfl
      rw [Except.map]
      dsimp only
      rw [hslots]
      rcases (mapSlots document).run w with ⟨cause | maps, w'⟩
      · rfl
      · exact congrArg (fun material => (Except.ok (material maps), w')) document.material_explicit.symm

theorem texturesOfLoad_explicit (asset : AssetId) (w : TextureTable × Services) :
    texturesOfLoad asset w = match (materialDocument w.2 asset).map Document.explicit with
      | .error _ => []
      | .ok document => alongMaps textureLoader.loadsBegun document.mapsByKind w := by
  rw [texturesOfLoad, alongLoad]
  cases materialDocument w.2 asset with
  | error cause => rfl
  | ok document => rfl

def SameDocument (bytes bytes' : ByteArray) : Prop :=
  ((Json.read? bytes).bind Document.ofJson?).map Document.explicit =
    ((Json.read? bytes').bind Document.ofJson?).map Document.explicit

theorem materialDocument_explicit (h : s.SameBut id bytes bytes' s') (hdocument : SameDocument bytes bytes')
    (asset : AssetId) :
    (materialDocument s' asset).map Document.explicit = (materialDocument s asset).map Document.explicit := by
  rw [materialDocument, materialDocument]
  by_cases hasset : asset = id
  · subst hasset
    rw [h.assets.content, h.assets.content']
    rw [SameDocument] at hdocument
    dsimp only
    cases hread : (Json.read? bytes).bind Document.ofJson? with
    | none =>
        rw [hread, Option.map_none, eq_comm, Option.map_eq_none_iff] at hdocument
        rw [hdocument]
    | some document =>
        rw [hread] at hdocument
        obtain ⟨document', hread', hsame⟩ := Option.map_eq_some_iff.mp hdocument.symm
        rw [hread']
        exact congrArg Except.ok hsame
  · have hread : s'.assets.read asset = s.assets.read asset := h.assets.elsewhere [] asset hasset
    rw [hread]

abbrev MapsSameBut (id : AssetId) (bytes bytes' : ByteArray) (w w' : TextureTable × Services) : Prop :=
  w'.1 = w.1 ∧ w.2.SameBut id bytes bytes' w'.2

theorem loadMaterial_blind {w w' : TextureTable × Services} (h : MapsSameBut id bytes bytes' w w')
    (hdocument : SameDocument bytes bytes') (asset : AssetId) :
    (loadMaterial asset w').1 = (loadMaterial asset w).1 ∧
      MapsSameBut id bytes bytes' (loadMaterial asset w).2 (loadMaterial asset w').2 := by
  obtain ⟨t, s⟩ := w
  obtain ⟨t', s'⟩ := w'
  obtain ⟨rfl, hs⟩ := h
  rw [loadMaterial_explicit, loadMaterial_explicit]
  dsimp only
  rw [materialDocument_explicit hs hdocument]
  cases (materialDocument s asset).map Document.explicit with
  | error cause => exact ⟨rfl, rfl, hs⟩
  | ok document =>
      obtain ⟨answer, t₁, s₁, s₁', hrun, hrun', hrest⟩ := (blind_mapSlots document _ hs).split
      dsimp only at hrun hrun' ⊢
      rw [hrun, hrun']
      rcases answer with cause | maps
      · exact ⟨rfl, rfl, hrest⟩
      · exact ⟨rfl, rfl, hrest⟩

theorem texturesOfLoad_blind {w w' : TextureTable × Services} (h : MapsSameBut id bytes bytes' w w')
    (hdocument : SameDocument bytes bytes') (asset : AssetId) :
    texturesOfLoad asset w' = texturesOfLoad asset w := by
  obtain ⟨t, s⟩ := w
  obtain ⟨t', s'⟩ := w'
  obtain ⟨rfl, hs⟩ := h
  rw [texturesOfLoad_explicit, texturesOfLoad_explicit]
  dsimp only
  rw [materialDocument_explicit hs hdocument]
  cases (materialDocument s asset).map Document.explicit with
  | error cause => rfl
  | ok document => exact alongMaps_blind _ hs _

theorem materialLoader_blind (hdocument : SameDocument bytes bytes') :
    materialLoader.BlindTo (MapsSameBut id bytes bytes') where
  describe key h := h.2.assets.describe key
  note event h := ⟨h.1, textureLoader_blind.note event h.2⟩
  release _ h := h
  load key t h := by
    obtain ⟨hresult, hrest⟩ := loadMaterial_blind h hdocument key
    exact ⟨hresult, rfl, hrest⟩

end Loading

namespace Engine

def texturesBegun (e : Engine) (asset : AssetId) : List AssetId :=
  ((materialLoader.logging texturesOfLoad).loadOrGet asset
    (e.materials, (e.textures, e.services), [])).2.2.2

structure SameBut (id : AssetId) (bytes bytes' : ByteArray) (e e' : Engine) : Prop where
  services : e.services.SameBut id bytes bytes' e'.services
  textures : e'.textures = e.textures
  materials : e'.materials = e.materials
  cubemaps : e'.cubemaps = e.cubemaps

variable {id : AssetId} {bytes bytes' : ByteArray} {e e' : Engine}

/-- Engines in which values in JSON were put under one path are the same but for what it was. -/
theorem sameBut_insertBytes (e : Engine) (hdecoder : e.services.decoder = Image.pixmap?) (path : String)
    {value value' : Json} (hread : Json.read? bytes = some value) (hread' : Json.read? bytes' = some value') :
    (e.insertBytes path bytes).2.SameBut (.ofPath path) bytes bytes' (e.insertBytes path bytes').2 where
  services :=
    { assets := e.services.assets.sameBut_insertBytes path bytes bytes'
      rest := rfl
      noImage := (congrFun hdecoder bytes).trans (Image.pixmap?_of_json hread)
      noImage' := (congrFun hdecoder bytes').trans (Image.pixmap?_of_json hread') }
  textures := rfl
  materials := rfl
  cubemaps := rfl

theorem SameBut.texturesBegun (h : e.SameBut id bytes bytes' e') (hdocument : SameDocument bytes bytes')
    (asset : AssetId) : e'.texturesBegun asset = e.texturesBegun asset := by
  have hblind : materialLoader.BlindTo (MapsSameBut id bytes bytes') := materialLoader_blind hdocument
  have hlogging := hblind.logging fun asset hmaps => texturesOfLoad_blind hmaps hdocument asset
  have hmaps : MapsSameBut id bytes bytes' (e.textures, e.services) (e'.textures, e'.services) ∧
      ([] : List AssetId) = [] := ⟨⟨h.textures, h.services⟩, rfl⟩
  rw [Engine.texturesBegun, Engine.texturesBegun, h.materials]
  exact (hlogging.loadOrGet hmaps asset e.materials).rest.2

theorem SameBut.loadOrGet (h : e.SameBut id bytes bytes' e') (hdocument : SameDocument bytes bytes')
    (asset : AssetId) :
    (e'.loadOrGet .materials asset).1 = (e.loadOrGet .materials asset).1 ∧
      (e.loadOrGet .materials asset).2.SameBut id bytes bytes' (e'.loadOrGet .materials asset).2 := by
  have hmaps : MapsSameBut id bytes bytes' (e.textures, e.services) (e'.textures, e'.services) :=
    ⟨h.textures, h.services⟩
  obtain ⟨answer, t, w, w', hcall, hcall', hrest⟩ :=
    ((materialLoader_blind hdocument).loadOrGet hmaps asset e.materials).split
  rw [Engine.loadOrGet, Engine.loadOrGet, h.materials]
  dsimp only
  rw [hcall, hcall']
  exact ⟨rfl, hrest.2, hrest.1, rfl, h.cubemaps⟩

/-- Let two engines be the same but for one file, with the document of a material in the one, and in the other the
document rewritten: its members in another order, members of unknown names added or left out, defaults of fields put in
writing or left out. Then that is a document as well. The load of the material has the same result, be it the material or
an error, and loads the same textures in the same order. So does any call for a material, and the engines remain the same
but for the file. -/
theorem load_rewritten {members members' : List (Option String × Json)}
    (hmembers : Json.read? bytes = some (.object members)) (hmembers' : Json.read? bytes' = some (.object members'))
    (haccepted : (Document.ofJson? (.object members)).isSome) (hrewritten : Document.Rewritten members members')
    (h : e.SameBut id bytes bytes' e') :
    (Document.ofJson? (.object members')).isSome ∧
      (loadMaterial id (e'.textures, e'.services)).1 = (loadMaterial id (e.textures, e.services)).1 ∧
      texturesOfLoad id (e'.textures, e'.services) =
        texturesOfLoad id (e.textures, e.services) ∧
      ∀ asset, (e'.loadOrGet .materials asset).1 = (e.loadOrGet .materials asset).1 ∧
        e'.texturesBegun asset = e.texturesBegun asset ∧
        (e.loadOrGet .materials asset).2.SameBut id bytes bytes' (e'.loadOrGet .materials asset).2 := by
  have hexplicit := hrewritten.explicit
  have hdocument : SameDocument bytes bytes' := by
    rw [SameDocument, hmembers, hmembers']
    exact hexplicit
  have hmaps : MapsSameBut id bytes bytes' (e.textures, e.services) (e'.textures, e'.services) :=
    ⟨h.textures, h.services⟩
  refine ⟨?_, (loadMaterial_blind hmaps hdocument id).1, texturesOfLoad_blind hmaps hdocument id, fun asset => ?_⟩
  · rw [← Option.isSome_map, ← hexplicit, Option.isSome_map]
    exact haccepted
  · obtain ⟨hresult, hrest⟩ := h.loadOrGet hdocument asset
    exact ⟨hresult, h.texturesBegun hdocument asset, hrest⟩

def plaster : ByteArray :=
  textFile "\x7b\"albedoPath\": \"sky.png\", \"normalMapPath\": \"rock.png\", \"cullOff\": false\x7d"

def wordyPlaster : ByteArray :=
  textFile "\x7b\"roughness\": 0.5, \"normalMapPath\": \"rock.png\", \"tint\": [1e999], \"albedoPath\": \"sky.png\"\x7d"

def albedoMember : Option String × Json := (some "albedoPath", .string (some "sky.png"))

def normalMember : Option String × Json := (some "normalMapPath", .string (some "rock.png"))

def plasterMembers : List (Option String × Json) := [albedoMember, normalMember, (some "cullOff", .bool false)]

def wordyMembers : List (Option String × Json) :=
  [(some "roughness", .number (.real 0.5)), normalMember, (some "tint", .array [.number .outOfRange]), albedoMember]

theorem rewritten_plaster : Document.Rewritten plasterMembers wordyMembers := by
  have hcull : Document.Rewritten [albedoMember, normalMember] plasterMembers :=
    .default [albedoMember, normalMember] [] (by decide) rfl
  have hswap : Document.Rewritten [albedoMember, normalMember] [normalMember, albedoMember] :=
    .rel _ _ (.permute (.swap _ _ _))
  have htint : Document.Rewritten [normalMember, albedoMember]
      [normalMember, (some "tint", .array [.number .outOfRange]), albedoMember] :=
    .unknown [normalMember] [albedoMember] (by decide) _
  have hrough : Document.Rewritten [normalMember, (some "tint", .array [.number .outOfRange]), albedoMember]
      wordyMembers := by
    apply Document.Rewritten.default []
    · decide
    · apply Document.isDefault_defaults (_, _)
      simp [Document.defaults]
  apply Relation.EqvGen.trans _ _ _ (.symm _ _ hcull)
  exact .trans _ _ _ hswap (.trans _ _ _ htint hrough)

def plasterEngine (document : ByteArray) : Engine := ((ofServices pixelServices).insertBytes "plaster.json" document).2

set_option maxRecDepth 10000 in
/-- The rock is missing, so that the texture that stands in for it is loaded for both engines. -/
theorem load_rewritten_plaster :
    ((plasterEngine wordyPlaster).loadOrGet .materials (.ofPath "plaster.json")).1 =
        ((plasterEngine plaster).loadOrGet .materials (.ofPath "plaster.json")).1 ∧
      (plasterEngine wordyPlaster).texturesBegun (.ofPath "plaster.json") =
        [.ofPath "sky.png", .ofPath "rock.png", .ofPath missingTexture] := by
  have hread : Json.read? plaster = some (.object plasterMembers) := by with_unfolding_all rfl
  have hread' : Json.read? wordyPlaster = some (.object wordyMembers) := by with_unfolding_all rfl
  have hsame : (plasterEngine plaster).SameBut (.ofPath "plaster.json") plaster wordyPlaster
      (plasterEngine wordyPlaster) := sameBut_insertBytes _ rfl _ hread hread'
  have haccepted : (Document.ofJson? (.object plasterMembers)).isSome := by decide +kernel
  obtain ⟨_, _, _, hcalls⟩ := load_rewritten hread hread' haccepted rewritten_plaster hsame
  obtain ⟨hresult, hbegun, _⟩ := hcalls (.ofPath "plaster.json")
  have hloads : (plasterEngine plaster).texturesBegun (.ofPath "plaster.json") =
      [.ofPath "sky.png", .ofPath "rock.png", .ofPath missingTexture] := by decide +kernel
  exact ⟨hresult, hbegun.trans hloads⟩

end Engine

end FrameEngine
