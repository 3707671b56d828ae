import FrameEngine.Proofs.Engine.Maps
import FrameEngine.Proofs.Slots.Logging
import FrameEngine.Proofs.Slots.Refusals

namespace FrameEngine

open FrameEngine.Asset FrameEngine.Material FrameEngine.Slots FrameEngine.Texture

section Requests

structure MapRequest where
  id : AssetId
  /-- For another map than that of the albedo. -/
  isLinear : Bool
  isAnswered : Bool
  deriving DecidableEq

/-- Whether a texture is linear, by the requests for it: one for another map than that of the albedo has come before any
of them was answered, or is the first that was. -/
def linearInTime (id : AssetId) : List MapRequest → Bool
  | [] => false
  | request :: rest =>
      if request.id = id then request.isLinear || (!request.isAnswered && linearInTime id rest)
      else linearInTime id rest

def mapKinds : List Bool := [false, true, true, true, true, true]

def Material.Document.mapsByKind (document : Document) : List (Option String × Bool) :=
  document.mapPaths.zip mapKinds

def mapRequests : List (Option String × Bool) → TextureTable × Services → List MapRequest
  | [], _ => []
  | (none, _) :: maps, w => mapRequests maps w
  | (some path, isLinear) :: maps, w => match (mapSlot (some path) isLinear).run w with
      | (.ok _, w) => ⟨.ofPath path, isLinear, true⟩ :: mapRequests maps w
      | (.error _, _) => [⟨.ofPath path, isLinear, false⟩]

def requestsOfLoad (id : AssetId) (w : TextureTable × Services) : List MapRequest :=
  match materialDocument w.2 id with
  | .error _ => []
  | .ok document => mapRequests document.mapsByKind w

variable {id : AssetId} {requests more : List MapRequest} {request : MapRequest}

theorem linearInTime_append_of_answered (h : ∃ r ∈ requests, r.id = id ∧ r.isAnswered) :
    linearInTime id (requests ++ more) = linearInTime id requests := by
  induction requests with
  | nil => simp at h
  | cons first rest ih =>
      rw [List.cons_append, linearInTime, linearInTime]
      split
      next hid =>
        by_cases hanswered : first.isAnswered
        · simp [hanswered]
        · have hlater : ∃ r ∈ rest, r.id = id ∧ r.isAnswered := by simpa [hanswered] using h
          rw [ih hlater]
      next hid =>
        have hlater : ∃ r ∈ rest, r.id = id ∧ r.isAnswered := by simpa [hid] using h
        exact ih hlater

/-- As long as none was answered, all requests count. -/
theorem linearInTime_concat_of_unanswered (h : ¬∃ r ∈ requests, r.id = id ∧ r.isAnswered) :
    linearInTime id (requests ++ [request]) ↔ ∃ r ∈ requests ++ [request], r.id = id ∧ r.isLinear := by
  induction requests with
  | nil =>
      by_cases hid : request.id = id <;> simp [linearInTime, hid]
  | cons first rest ih =>
      have hrest : ¬∃ r ∈ rest, r.id = id ∧ r.isAnswered :=
        fun ⟨r, hr, hanswered⟩ => h ⟨r, List.mem_cons_of_mem first hr, hanswered⟩
      rw [List.cons_append, linearInTime, List.exists_mem_cons_iff, ← ih hrest]
      by_cases hid : first.id = id
      · have hfirst : first.isAnswered = false := by
          refine Bool.eq_false_iff.mpr fun hanswered => h ⟨first, List.mem_cons_self, hid, hanswered⟩
        simp [hid, hfirst]
      · simp [hid]

theorem linearInTime_of_none (h : ∀ r ∈ requests, r.id = id → r.isLinear = false) :
    linearInTime id requests = false := by
  induction requests with
  | nil => rfl
  | cons first rest ih =>
      obtain ⟨hfirst, hrest⟩ := List.forall_mem_cons.mp h
      rw [linearInTime, ih hrest]
      split
      next hid => simp [hfirst hid]
      · rfl

theorem linearInTime_of_all (hsome : ∃ r ∈ requests, r.id = id) (h : ∀ r ∈ requests, r.id = id → r.isLinear) :
    linearInTime id requests = true := by
  induction requests with
  | nil => simp at hsome
  | cons first rest ih =>
      obtain ⟨hfirst, hrest⟩ := List.forall_mem_cons.mp h
      rw [linearInTime]
      split
      next hid => simp [hfirst hid]
      next hid => exact ih (by simpa [hid] using hsome) hrest

/-- A texture that is asked for as one kind of map only is of this kind. -/
theorem linearInTime_of_one_kind {isLinear : Bool} (hsome : ∃ r ∈ requests, r.id = id)
    (h : ∀ r ∈ requests, r.id = id → r.isLinear = isLinear) : linearInTime id requests = isLinear := by
  cases isLinear with
  | false => exact linearInTime_of_none h
  | true => exact linearInTime_of_all hsome h

end Requests

section Marks

abbrev Services.SameMarks (s s' : Services) : Prop := s'.linear = s.linear

theorem textureLoader_sameMarks : textureLoader.Detached Services.SameMarks where
  refl _ := rfl
  trans h h' := h'.trans h
  note _ _ := rfl
  load id _ s := by
    refine ⟨(s.loadTexture id).1, (s.loadTexture id).2, rfl, ?_⟩
    rw [Services.SameMarks, Services.loadTexture]
    split
    · rfl
    · split
      · rfl
      · split <;> rfl

/-- A texture comes in the format that its mark says. -/
theorem format_of_loadTexture {s s' : Services} {id : AssetId} {texture : GpuTexture}
    (h : s.loadTexture id = (.ok texture, s')) : texture.format = .rgba8 (s.isSrgb id) := by
  rw [Services.loadTexture] at h
  split at h
  · cases h
  · split at h
    · cases h
    next data hdata =>
      have hformat : data.format = .rgba8 (s.isSrgb id) := by
        obtain ⟨image, _, rfl⟩ := Option.map_eq_some_iff.mp hdata
        rfl
      split at h
      · cases h
      next made _ hmade =>
        cases h
        rw [Uploader.uploadTexture] at hmade
        split at hmade
        · cases hmade
        · cases hmade
          exact hformat

end Marks

section Asked

/-- What requests leave of the texture table and the marks, when there were no others: those are marked that were asked
for as linear, those are mapped whose requests were answered, and each format was settled in time. -/
structure Asked (w : TextureTable × Services) (requests : List MapRequest) : Prop where
  settled : w.1.Settled (.ofPath missingTexture)
  marked : ∀ id, id ∈ w.2.linear ↔ ∃ r ∈ requests, r.id = id ∧ r.isLinear
  mapped : ∀ id, id ≠ .ofPath missingTexture →
    ((∃ slot, w.1.slotOf? id = some slot) ↔ ∃ r ∈ requests, r.id = id ∧ r.isAnswered)
  formats : ∀ slot id texture, id ≠ .ofPath missingTexture → w.1.states.get slot = .resident id →
    w.1.contents.get slot = some texture → texture.format = .rgba8 (!linearInTime id requests)

variable {t t' : TextureTable} {s s₁ s' : Services} {id : AssetId} {requests : List MapRequest} {isLinear : Bool}

/-- A texture that has come with the last request has the format which all requests until then have settled. -/
theorem Asked.format_of_arrived (h : Asked (t, s) requests)
    (hs : s₁.linear = if isLinear then id :: s.linear else s.linear) (hid : id ≠ .ofPath missingTexture)
    (hnone : t.slotOf? id = none) (isAnswered : Bool) :
    s₁.isSrgb id = !linearInTime id (requests ++ [⟨id, isLinear, isAnswered⟩]) := by
  have hunanswered : ¬∃ r ∈ requests, r.id = id ∧ r.isAnswered := by
    rw [← h.mapped id hid]
    simp [hnone]
  have hmarked : id ∈ s₁.linear ↔ ∃ r ∈ requests ++ [⟨id, isLinear, isAnswered⟩], r.id = id ∧ r.isLinear := by
    have hbefore := h.marked id
    dsimp only at hbefore
    rw [hs]
    cases isLinear <;> simp [hbefore]
  rw [← linearInTime_concat_of_unanswered hunanswered] at hmarked
  rw [Services.isSrgb, decide_not, Bool.not_inj_iff]
  simp [hmarked]

theorem Asked.loadOrGet {result : Except SlotError (Fin textureSlots)} (h : Asked (t, s) requests)
    (hs : s₁.linear = if isLinear then id :: s.linear else s.linear)
    (hcall : textureLoader.loadOrGet id (t, s₁) = (result, t', s')) :
    Asked (t', s') (requests ++ [⟨id, isLinear, result.isOk⟩]) := by
  have hcomes := textureLoader_sameMarks.comes h.settled id s₁
  obtain ⟨hfills, hserves⟩ := textureLoader_sameMarks.loadOrGet h.settled id s₁
  rw [hcall] at hcomes hfills hserves
  have hmarks : s'.linear = s₁.linear := hfills.goesOn
  refine ⟨hfills.grows.settled h.settled, fun id' => ?_, fun id' hid' => ?_, fun slot id' texture hid' hstate hc => ?_⟩
  · have hbefore := h.marked id'
    dsimp only at hbefore ⊢
    rw [hmarks, hs]
    cases isLinear <;> simp [hbefore, or_comm, eq_comm (a := id)]
  · have hbefore := h.mapped id' hid'
    by_cases hown : id' = id
    · subst hown
      cases result with
      | ok slot =>
          obtain ⟨holder, hholder⟩ := hserves slot rfl
          simp [Except.isOk, Except.toBool, hholder.mapped]
      | error cause =>
          -- a call without an answer leaves the table as it was
          obtain ⟨rfl, _⟩ := hcomes.refused
          simpa [Except.isOk, Except.toBool] using hbefore
    · have hsame : t'.slotOf? id' = t.slotOf? id' := hcomes.others hown hid'
      rw [hsame]
      simpa [Ne.symm hown] using hbefore
  · obtain ⟨hstate, hc⟩ | ⟨rfl, hprobe, s₂, hload⟩ := hcomes.arrived hid' hstate hc
    · have hheld := h.settled.coherent.holder slot id' (Table.key?_of_resident hstate)
      have hanswered := (h.mapped id' hid').mp ⟨slot, hheld⟩
      rw [linearInTime_append_of_answered hanswered]
      exact h.formats slot id' texture hid' hstate hc
    · have houtcome : (s₁.loadTexture id').1 = .ok texture := congrArg Prod.fst hload
      have hnone := (Table.vacant_of_probe hprobe).1
      rw [format_of_loadTexture (Prod.ext houtcome rfl), h.format_of_arrived hs hid' hnone result.isOk]

end Asked

section Bound

/-- What shaders find at the index of a map: nothing, where it has no path, or else a texture that was asked for as a
map of its kind, or what stands in for missing ones. -/
inductive Bound (t : TextureTable) (requests : List MapRequest) : Option String × Bool → UInt32 → Prop
  | absent {isLinear} : Bound t requests (none, isLinear) noTexture
  | present {path isLinear index slot id} (hindex : index.toNat = slot.val) (hs : t.states.get slot = .resident id)
      (hid : id = .ofPath missingTexture ∨ ⟨id, isLinear, true⟩ ∈ requests) :
      Bound t requests (some path, isLinear) index

variable {w w' : TextureTable × Services} {requests more : List MapRequest} {path : String} {isLinear : Bool}
  {map : Option String × Bool} {maps : List (Option String × Bool)} {index : UInt32}

theorem Bound.mono {t t' : TextureTable} (h : Bound t requests map index) (ht : t.Settled (.ofPath missingTexture))
    (hgrows : t.GrowsTo (.ofPath missingTexture) t') (hmore : requests ⊆ more) : Bound t' more map index := by
  cases h with
  | absent => exact .absent
  | present hindex hs hid => exact .present hindex (hgrows.resident ht hs).1 (hid.imp_right fun hmem => hmore hmem)

theorem mapSlot_grows {result : Except SlotError UInt32} {path : Option String}
    (hrun : (mapSlot path isLinear).run w = (result, w')) : TexturesGrow w w' := by
  have hmeets := tracks_grow.mapSlot path isLinear w
  rwa [hrun] at hmeets

theorem Asked.mapSlot {result : Except SlotError UInt32} (h : Asked w requests)
    (hrun : (mapSlot (some path) isLinear).run w = (result, w')) :
    Asked w' (requests ++ [⟨.ofPath path, isLinear, result.isOk⟩]) ∧
      ∀ index, result = .ok index →
        Bound w'.1 (requests ++ [⟨.ofPath path, isLinear, true⟩]) (some path, isLinear) index := by
  obtain ⟨t, s⟩ := w
  rw [run_mapSlot] at hrun
  dsimp only at hrun
  generalize hs : (if isLinear then (s.register path).2.markLinear (s.register path).1 else (s.register path).2) = s₁
    at hrun
  have hid : (s.register path).1 = .ofPath path := s.assets.register_fst path
  rw [hid] at hrun hs
  have hmarks : s₁.linear = if isLinear then .ofPath path :: s.linear else s.linear := by
    rw [← hs]
    cases isLinear <;> rfl
  obtain ⟨_, hserves⟩ := textureLoader_sameMarks.loadOrGet h.settled (.ofPath path) s₁
  rcases hcall : textureLoader.loadOrGet (.ofPath path) (t, s₁) with ⟨cause | slot, t', s'⟩
  · rw [hcall] at hrun
    cases hrun
    exact ⟨h.loadOrGet hmarks hcall, by simp⟩
  · rw [hcall] at hrun hserves
    cases hrun
    have hasked := h.loadOrGet hmarks hcall
    refine ⟨hasked, fun index hindex => ?_⟩
    cases hindex
    obtain ⟨holder, hholder⟩ := hserves slot rfl
    have hlt : slot.val < UInt32.size := Nat.lt_trans slot.isLt (by decide)
    rcases hasked.settled.answers hholder.mapped with hown | hstandIn
    · exact .present (UInt32.toNat_ofNat_of_lt hlt) hown (.inr (by simp))
    · exact .present (UInt32.toNat_ofNat_of_lt hlt) hstandIn (.inl rfl)

def indicesOf (maps : List (Option String × Bool)) : Mapping (List UInt32) :=
  maps.mapM fun map => mapSlot map.1 map.2

/-- The maps of a material are found in the order of their indices. -/
theorem textures_of_mapSlots (document : Document) :
    (do return (document.material (← mapSlots document)).packed.textures) = indicesOf document.mapsByKind := by
  rw [mapSlots, indicesOf, Document.mapsByKind, Document.mapPaths]
  cases hpacked : document.pbrMapPath with
  | some path => simp [mapKinds, mapSlot, Document.material, Packed.textures]
  | none => simp [mapKinds, mapSlot, Document.material, Packed.textures]

theorem run_indicesOf_cons (map : Option String × Bool) (maps : List (Option String × Bool))
    (w : TextureTable × Services) : (indicesOf (map :: maps)).run w =
      match (mapSlot map.1 map.2).run w with
      | (.error cause, w) => (.error cause, w)
      | (.ok index, w) => (((indicesOf maps).run w).1.map (index :: ·), ((indicesOf maps).run w).2) := by
  have hcons : indicesOf (map :: maps) = (do
      let index ← mapSlot map.1 map.2
      let indices ← indicesOf maps
      return index :: indices) := List.mapM_cons
  rw [hcons, run_bind]
  rcases (mapSlot map.1 map.2).run w with ⟨cause | index, w₁⟩
  · rfl
  · dsimp only
    rw [run_bind]
    rcases (indicesOf maps).run w₁ with ⟨cause | indices, w₂⟩ <;> rfl

structure GoesOn (w : TextureTable × Services) (requests : List MapRequest) (w' : TextureTable × Services)
    (more : List MapRequest) : Prop where
  asked : Asked w' more
  grows : w.1.GrowsTo (.ofPath missingTexture) w'.1
  keeps : requests ⊆ more

theorem Asked.rest (h : Asked w requests) : GoesOn w requests w requests := ⟨h, .refl _, fun _ => id⟩

theorem GoesOn.trans {w'' : TextureTable × Services} {last : List MapRequest} (h : GoesOn w requests w' more)
    (h' : GoesOn w' more w'' last) : GoesOn w requests w'' last :=
  ⟨h'.asked, h.grows.trans h'.grows, fun _ hmem => h'.keeps (h.keeps hmem)⟩

/-- After one map, the others. -/
theorem Bound.cons {indices : List UInt32} {result : Except SlotError (List UInt32)}
    (hfirst : Bound w.1 requests map index) (hgoes : GoesOn w requests w' more)
    (hw : w.1.Settled (.ofPath missingTexture))
    (hrest : ∀ indices, result = .ok indices → List.Forall₂ (Bound w'.1 more) maps indices)
    (h : result.map (index :: ·) = .ok indices) : List.Forall₂ (Bound w'.1 more) (map :: maps) indices := by
  cases result with
  | error cause => cases h
  | ok rest =>
      cases h
      exact .cons (hfirst.mono hw hgoes.grows hgoes.keeps) (hrest rest rfl)

theorem Asked.indicesOf (h : Asked w requests) (maps : List (Option String × Bool)) :
    GoesOn w requests ((indicesOf maps).run w).2 (requests ++ mapRequests maps w) ∧
      ∀ indices, ((indicesOf maps).run w).1 = .ok indices →
        List.Forall₂ (Bound ((indicesOf maps).run w).2.1 (requests ++ mapRequests maps w)) maps indices := by
  induction maps generalizing w requests with
  | nil =>
      rw [mapRequests, List.append_nil]
      exact ⟨h.rest, fun indices hindices => by cases hindices; exact .nil⟩
  | cons map maps ih =>
      rw [run_indicesOf_cons]
      rcases map with ⟨path | path, isLinear⟩
      · obtain ⟨hgoes, hbound⟩ := ih h
        exact ⟨hgoes, fun indices hindices => Bound.cons .absent hgoes h.settled hbound hindices⟩
      · rw [mapRequests]
        rcases hfirst : (FrameEngine.mapSlot (some path) isLinear).run w with ⟨cause | index, w₁⟩
        · obtain ⟨hasked, _⟩ := h.mapSlot hfirst
          have hgrows := mapSlot_grows hfirst h.settled
          exact ⟨⟨hasked, hgrows, List.subset_append_left _ _⟩, by simp⟩
        · obtain ⟨hasked, hindex⟩ := h.mapSlot hfirst
          have hgrows := mapSlot_grows hfirst h.settled
          have hgoes : GoesOn w requests w₁ (requests ++ [⟨.ofPath path, isLinear, true⟩]) :=
            ⟨hasked, hgrows, List.subset_append_left _ _⟩
          obtain ⟨hrest, hbound⟩ := ih hasked
          rw [List.append_assoc, List.singleton_append] at hrest hbound
          exact ⟨hgoes.trans hrest, fun indices hindices =>
            Bound.cons (hindex index rfl) hrest hasked.settled hbound hindices⟩

def Furnished (t : TextureTable) (requests : List MapRequest) (material : Material) : Prop :=
  ∃ document : Document, List.Forall₂ (Bound t requests) document.mapsByKind material.packed.textures

theorem Furnished.mono {t t' : TextureTable} {material : Material} (h : Furnished t requests material)
    (ht : t.Settled (.ofPath missingTexture)) (hgrows : t.GrowsTo (.ofPath missingTexture) t')
    (hmore : requests ⊆ more) : Furnished t' more material := by
  obtain ⟨document, hbound⟩ := h
  exact ⟨document, hbound.imp fun map index hindex => hindex.mono ht hgrows hmore⟩

theorem Asked.loadMaterial (h : Asked w requests) (id : AssetId) :
    GoesOn w requests (loadMaterial id w).2 (requests ++ requestsOfLoad id w) ∧
      ∀ material, (loadMaterial id w).1 = .ok material →
        Furnished (loadMaterial id w).2.1 (requests ++ requestsOfLoad id w) material := by
  rw [FrameEngine.loadMaterial, requestsOfLoad]
  cases materialDocument w.2 id with
  | error cause =>
      rw [List.append_nil]
      exact ⟨h.rest, by simp⟩
  | ok document =>
      obtain ⟨hgoes, hbound⟩ := h.indicesOf document.mapsByKind
      rw [← textures_of_mapSlots, run_bind] at hgoes hbound
      dsimp only
      rcases hrun : (mapSlots document).run w with ⟨cause | maps, w₁⟩
      · rw [hrun] at hgoes
        exact ⟨hgoes, by simp⟩
      · rw [hrun] at hgoes hbound
        refine ⟨hgoes, fun material hmaterial => ?_⟩
        cases hmaterial
        exact ⟨document, hbound _ rfl⟩

end Bound

section Logs

abbrev AskedLoads (w w' : (TextureTable × Services) × List MapRequest) : Prop :=
  Asked w.1 w.2 → GoesOn w.1 w.2 w'.1 w'.2

theorem materialLoader_logs : (materialLoader.logging requestsOfLoad).Detached AskedLoads where
  refl _ h := h.rest
  trans h h' hw := (h hw).trans (h' (h hw).asked)
  note _ _ h := ⟨⟨h.settled, h.marked, h.mapped, h.formats⟩, .refl _, fun _ => id⟩
  load id _ w := ⟨(loadMaterial id w.1).1, ((loadMaterial id w.1).2, w.2 ++ requestsOfLoad id w.1), rfl,
    fun h => (h.loadMaterial id).1⟩

end Logs

namespace Engine

def requestsAfter (e : Engine) (id : AssetId) (requests : List MapRequest) : List MapRequest :=
  ((materialLoader.logging requestsOfLoad).loadOrGet id (e.materials, (e.textures, e.services), requests)).2.2.2

/-- An engine from which only materials were loaded, and the requests for maps that all these loads have made. In
between services may change, but for the marks. -/
inductive MaterialsLoaded : Engine → List MapRequest → Prop
  | start {s : Services} (hs : s.linear = []) : MaterialsLoaded (ofServices s) []
  | load {e requests} (h : MaterialsLoaded e requests) (id : AssetId) :
      MaterialsLoaded (e.loadOrGet .materials id).2 (e.requestsAfter id requests)
  | change {e requests} (h : MaterialsLoaded e requests) {s : Services} (hs : s.linear = e.services.linear) :
      MaterialsLoaded { e with services := s } requests

structure Supplied (e : Engine) (requests : List MapRequest) : Prop where
  asked : Asked (e.textures, e.services) requests
  materials : e.materials.Settled (.ofPath missingMaterial)
  furnished : ∀ s material, e.materials.contents.get s = some material → Furnished e.textures requests material

variable {e : Engine} {requests : List MapRequest}

theorem Supplied.load (h : e.Supplied requests) (id : AssetId) :
    (e.loadOrGet .materials id).2.Supplied (e.requestsAfter id requests) := by
  obtain ⟨log, hlog⟩ := materialLoader.loadOrGet_logging requestsOfLoad id e.materials (e.textures, e.services) requests
  obtain ⟨hfills, _⟩ := materialLoader_logs.loadOrGet h.materials id ((e.textures, e.services), requests)
  rw [hlog] at hfills
  rw [requestsAfter, hlog]
  have hgoes := hfills.goesOn h.asked
  refine ⟨hgoes.asked, hfills.grows.settled h.materials, fun s material hs => ?_⟩
  rcases hfills.made s material hs with hbefore | ⟨key, t, w, w', hbefore, hload, hafter⟩
  · exact (h.furnished s material hbefore).mono h.asked.settled hgoes.grows hgoes.keeps
  -- its maps were asked for when it was loaded, and no texture has gone since
  · have houtcome : (loadMaterial key w.1).1 = .ok material := congrArg Prod.fst hload
    have hafterwards : ((loadMaterial key w.1).2, w.2 ++ requestsOfLoad key w.1) = w' := congrArg (·.2.2) hload
    obtain ⟨hloaded, hfurnished⟩ := (hbefore h.asked).asked.loadMaterial key
    subst hafterwards
    have hrest := hafter hloaded.asked
    exact (hfurnished material houtcome).mono hloaded.asked.settled hrest.grows hrest.keeps

theorem MaterialsLoaded.supplied (h : e.MaterialsLoaded requests) : e.Supplied requests := by
  induction h with
  | @start s hs =>
      refine ⟨⟨Table.settled_empty _, ?_, ?_, ?_⟩, Table.settled_empty _, ?_⟩
      · simp [ofServices, Services.register, hs]
      · simp [ofServices, Table.empty, Table.slotOf?]
      · simp [ofServices, Table.empty, Vector.get]
      · simp [ofServices, Table.empty, Vector.get]
  | load _ id ih => exact ih.load id
  | change _ hs ih =>
      obtain ⟨hsettled, hmarked, hmapped, hformats⟩ := ih.asked
      refine ⟨⟨hsettled, fun id => ?_, hmapped, hformats⟩, ih.materials, ih.furnished⟩
      dsimp only
      rw [hs]
      exact hmarked id

/-- What shaders find at the index of a map: a texture that was asked for as a map of this kind, or what stands in for
missing ones. Its format is settled by all requests for it; if they were all for maps of this kind, it is that of the
kind. -/
def Supplies (e : Engine) (requests : List MapRequest) (isLinear : Bool) (index : UInt32) : Prop :=
  ∃ slot id texture, index.toNat = slot.val ∧ e.textures.states.get slot = .resident id ∧
    e.textures.contents.get slot = some texture ∧
    (id ≠ .ofPath missingTexture → ⟨id, isLinear, true⟩ ∈ requests ∧
      texture.format = .rgba8 (!linearInTime id requests) ∧
      ((∀ r ∈ requests, r.id = id → r.isLinear = isLinear) → texture.format = .rgba8 (!isLinear)))

theorem Supplied.supplies (h : e.Supplied requests) {path : String} {isLinear : Bool} {index : UInt32}
    (hbound : Bound e.textures requests (some path, isLinear) index) : e.Supplies requests isLinear index := by
  cases hbound with
  | @present _ _ _ slot id hindex hs hid =>
      obtain ⟨texture, htexture⟩ := h.asked.settled.filled hs
      refine ⟨slot, id, texture, hindex, hs, htexture, fun hne => ?_⟩
      have hasked := hid.resolve_left hne
      have hformat := h.asked.formats slot id texture hne hs htexture
      refine ⟨hasked, hformat, fun hkind => ?_⟩
      rw [hformat, linearInTime_of_one_kind ⟨_, hasked, rfl⟩ hkind]

theorem kinds_mapsByKind (document : Document) : document.mapsByKind.map Prod.snd = mapKinds := by
  rw [Document.mapsByKind, Document.mapPaths]
  cases document.pbrMapPath <;> rfl

theorem Supplied.supplies_or_absent (h : e.Supplied requests) {map : Option String × Bool} {index : UInt32}
    (hbound : Bound e.textures requests map index) : index = noTexture ∨ e.Supplies requests map.2 index := by
  obtain ⟨path, isLinear⟩ := map
  cases path with
  | none =>
      cases hbound
      exact .inl rfl
  | some path => exact .inr (h.supplies hbound)

/-- However materials were loaded before, with whatever textures in common: at the indices in a material shaders find
textures that were asked for as such maps, or what stands in for them. Each has the format that all requests for it, in
their order, have settled in time; it is the one of its kind of map if it was never asked for as the other kind. -/
theorem formats_settled_in_time (h : e.MaterialsLoaded requests) {s : Fin materialSlots} {id : AssetId}
    (hs : e.materials.states.get s = .resident id) :
    ∃ material, e.materials.contents.get s = some material ∧ e.Supplies requests false material.packed.albedo ∧
      ∀ index ∈ material.packed.textures.tail, index = noTexture ∨ e.Supplies requests true index := by
  have hsupplied := h.supplied
  obtain ⟨material, hmaterial⟩ := hsupplied.materials.filled hs
  obtain ⟨document, hbound⟩ := hsupplied.furnished s material hmaterial
  have hkinds : List.Forall₂ (fun isLinear index => index = noTexture ∨ e.Supplies requests isLinear index) mapKinds
      material.packed.textures := by
    rw [← kinds_mapsByKind document, List.forall₂_map_left_iff]
    exact hbound.imp fun map index hindex => hsupplied.supplies_or_absent hindex
  refine ⟨material, hmaterial, ?_, ?_⟩
  · rw [Document.mapsByKind, Document.mapPaths, mapKinds] at hbound
    cases hbound with
    | cons hfirst _ => exact hsupplied.supplies hfirst
  · rw [mapKinds, Packed.textures, List.forall₂_cons] at hkinds
    simpa [Packed.textures] using hkinds.2

def rockServices : Services where
  assets := [("rock.png", pixelFile),
    ("moss.json", textFile "\x7b\"albedoPath\": \"sky.png\", \"normalMapPath\": \"rock.png\"\x7d"),
    ("rock.json", textFile "\x7b\"albedoPath\": \"rock.png\"\x7d")].foldl (fun db entry =>
      (db.insertBytes entry.1 entry.2).2) pixelServices.assets
  jobs := pixelServices.jobs

def mossEngine : Engine := ((ofServices rockServices).loadOrGet .materials (.ofPath "moss.json")).2

def rockEngine : Engine := (mossEngine.loadOrGet .materials (.ofPath "rock.json")).2

def rockRequests : List MapRequest :=
  mossEngine.requestsAfter (.ofPath "rock.json") ((ofServices rockServices).requestsAfter (.ofPath "moss.json") [])

/-- The texture of the rock was asked for as a normal map first, so it is linear as an albedo map, too. -/
theorem formats_settled_in_time_rock : rockRequests =
      [⟨.ofPath "sky.png", false, true⟩, ⟨.ofPath "rock.png", true, true⟩, ⟨.ofPath "rock.png", false, true⟩] ∧
    ∃ s slot material texture, rockEngine.materials.states.get s = .resident (.ofPath "rock.json") ∧
      rockEngine.materials.contents.get s = some material ∧ material.packed.albedo.toNat = Fin.val slot ∧
      rockEngine.textures.states.get slot = .resident (.ofPath "rock.png") ∧
      rockEngine.textures.contents.get slot = some texture ∧ texture.format = .rgba8Unorm := by
  have hstart : (ofServices rockServices).MaterialsLoaded [] := .start rfl
  have hloaded : rockEngine.MaterialsLoaded rockRequests :=
    (hstart.load (.ofPath "moss.json")).load (.ofPath "rock.json")
  have hrun : rockRequests = [⟨.ofPath "sky.png", false, true⟩, ⟨.ofPath "rock.png", true, true⟩,
        ⟨.ofPath "rock.png", false, true⟩] ∧
      rockEngine.materials.states.get ⟨1, by decide⟩ = .resident (.ofPath "rock.json") ∧
      (rockEngine.materials.contents.get ⟨1, by decide⟩).map (·.packed.albedo) = some 1 ∧
      rockEngine.textures.states.get ⟨1, by decide⟩ = .resident (.ofPath "rock.png") := by decide +kernel
  obtain ⟨hrequests, hs, halbedo, hheld⟩ := hrun
  obtain ⟨material, hmaterial, ⟨slot, id, texture, hindex, hslot, htexture, hformat⟩, _⟩ :=
    formats_settled_in_time hloaded hs
  rw [hmaterial] at halbedo
  have hone : material.packed.albedo = 1 := Option.some.inj halbedo
  have hval : slot.val = 1 := by rw [← hindex, hone]; rfl
  obtain rfl : slot = ⟨1, by decide⟩ := Fin.ext hval
  rw [hheld] at hslot
  cases hslot
  obtain ⟨_, hsettled, _⟩ := hformat (by decide +kernel)
  rw [hrequests] at hsettled
  exact ⟨hrequests, _, _, material, texture, hs, hmaterial, hindex, hheld, htexture, hsettled.trans (by decide +kernel)⟩

def tileServices : Services :=
  { pixelServices with assets := (pixelServices.assets.insertBytes "tile.json"
      (textFile "\x7b\"albedoPath\": \"sky.png\", \"normalMapPath\": \"sky.png\"\x7d")).2 }

def tileEngine : Engine := ((ofServices tileServices).loadOrGet .materials (.ofPath "tile.json")).2

/-- The normal map is in sRGB. -/
theorem normal_map_in_srgb : (∃ requests, tileEngine.MaterialsLoaded requests) ∧
    tileEngine.materials.keyAt? 0 = some (.ofPath "tile.json") ∧
    (tileEngine.materials.resourceAt? 0).map (·.packed.normal) = some 0 ∧
    tileEngine.textures.keyAt? 0 = some (.ofPath "sky.png") ∧ AssetId.ofPath "sky.png" ≠ .ofPath missingTexture ∧
    (tileEngine.textures.resourceAt? 0).map (·.format) = some .rgba8Srgb := by
  have hstart : (ofServices tileServices).MaterialsLoaded [] := .start rfl
  exact ⟨⟨_, hstart.load (.ofPath "tile.json")⟩, by decide +kernel⟩

end Engine

end FrameEngine
