import FrameEngine.Proofs.Cubemap.Assembly
import FrameEngine.Proofs.Engine.Calls
import FrameEngine.Proofs.Jobs.Exchanges
import FrameEngine.Proofs.Slots.Fallback

namespace FrameEngine

open FrameEngine.Asset FrameEngine.Cubemap FrameEngine.Jobs FrameEngine.Material FrameEngine.Slots
  FrameEngine.Texture

section Reading

variable {db : Database} {id : AssetId}

theorem read_of_inMemory {bytes : ByteArray} (h : db.inMemory? id = some bytes) : db.read id = .ok bytes := by
  rw [Database.read, h]

/-- Without files of a root directory, what cannot be read is missing. -/
theorem missing_of_read (hroot : db.root = none) {cause : AssetError} (h : db.read id = .error cause) :
    LoadError.ofAsset cause = .unavailable cause.message ∧ db.inMemory? id = none := by
  have hmissing : cause.isMissing ∧ db.inMemory? id = none := by
    rw [Database.read, hroot] at h
    cases hmemory : db.inMemory? id with
    | some bytes =>
        rw [hmemory] at h
        cases h
    | none =>
        rw [hmemory] at h
        cases hpath : db.path? id with
        | none =>
            rw [hpath] at h
            cases h
            exact ⟨rfl, rfl⟩
        | some path =>
            rw [hpath] at h
            cases h
            exact ⟨rfl, rfl⟩
  exact ⟨if_pos hmissing.1, hmissing.2⟩

end Reading

namespace Services

/-- What stands in for missing assets is in memory, and can be loaded. -/
structure Stocked (s : Services) : Prop where
  texture : ∃ bytes image, s.assets.inMemory? (.ofPath missingTexture) = some bytes ∧ s.decoder bytes = some image
  material : ∃ bytes document, s.assets.inMemory? (.ofPath missingMaterial) = some bytes ∧
    (Json.read? bytes).bind Document.ofJson? = some document
  cubemap : ∃ bytes paths, s.assets.inMemory? (.ofPath missingCubemap) = some bytes ∧
    facePaths (Json.read? bytes) = .ok paths ∧ ∃ (images : Vector Pixmap faceCount) (n : Nat), ∀ f,
      (∃ file, s.assets.inMemory? (.ofPath (paths.get f)) = some file ∧ s.decoder file = some (images.get f)) ∧
        (images.get f).width = n ∧ (images.get f).height = n

structure Ready (s : Services) : Prop where
  root : s.assets.root = none
  refused : s.uploader.refused = []
  stocked : s.Stocked

/-- What loads read stays as it is, and batches go on to run to their ends. -/
structure Keeps (s s' : Services) : Prop where
  root : s'.assets.root = s.assets.root
  memory : s'.assets.memory = s.assets.memory
  decoder : s'.decoder = s.decoder
  refused : s'.uploader.refused = s.uploader.refused
  batches (h : s.jobs.RunsToEnd faceCount) : s'.jobs.RunsToEnd faceCount

variable {s s' s'' : Services}

theorem Keeps.refl (s : Services) : s.Keeps s := ⟨rfl, rfl, rfl, rfl, id⟩

theorem Keeps.trans (h : s.Keeps s') (h' : s'.Keeps s'') : s.Keeps s'' where
  root := h'.root.trans h.root
  memory := h'.memory.trans h.memory
  decoder := h'.decoder.trans h.decoder
  refused := h'.refused.trans h.refused
  batches hends := h'.batches (h.batches hends)

theorem Keeps.inMemory? (h : s.Keeps s') (id : AssetId) : s'.assets.inMemory? id = s.assets.inMemory? id := by
  rw [Database.inMemory?, h.memory, Database.inMemory?]

theorem Stocked.keep (h : s.Stocked) (hkeep : s.Keeps s') : s'.Stocked := by
  obtain ⟨htexture, hmaterial, hcubemap⟩ := h
  constructor
  · rwa [hkeep.decoder, hkeep.inMemory?]
  · rwa [hkeep.inMemory?]
  · rw [hkeep.decoder]
    simpa only [hkeep.inMemory?] using hcubemap

theorem Ready.keep (h : s.Ready) (hkeep : s.Keeps s') : s'.Ready where
  root := hkeep.root.trans h.root
  refused := hkeep.refused.trans h.refused
  stocked := h.stocked.keep hkeep

theorem keeps_note (s : Services) (event : Event) : s.Keeps (s.note event) := ⟨rfl, rfl, rfl, rfl, id⟩

theorem keeps_register (s : Services) (path : String) : s.Keeps (s.register path).2 where
  root := s.assets.root_register path
  memory := s.assets.memory_register path
  decoder := rfl
  refused := rfl
  batches := id

theorem keeps_registerFaces (s : Services) (paths : Vector String faceCount) :
    s.Keeps (s.registerFaces paths) := by
  rw [registerFaces]
  generalize paths.toList = paths
  induction paths generalizing s with
  | nil => exact .refl s
  | cons path paths ih => exact (keeps_register s path).trans (ih _)

theorem keeps_upload {texture : GpuTexture} {u : Uploader} (h : s.uploader.Uploads texture u) :
    s.Keeps { s with uploader := u } := by
  obtain ⟨_, _, rfl⟩ := h.eq
  exact ⟨rfl, rfl, rfl, rfl, id⟩

/-- How a load ends if what stands in for missing assets is in order: what loads read stays as it is, they
fail for good by `E` only, and for want of an asset only if it is none that stands in. -/
structure Yields {ρ : Type} (s : Services) (E : SlotError → Prop) (placeholder id : AssetId)
    (outcome : Except LoadError ρ) (s' : Services) : Prop where
  keeps : s.Keeps s'
  fatal : ∀ cause, outcome = .error (.fatal cause) → E cause
  missing : ∀ reason, outcome = .error (.unavailable reason) → id ≠ placeholder

section Yields

variable {ρ : Type} {E : SlotError → Prop} {placeholder id : AssetId}

theorem yields_ok (hkeep : s.Keeps s') (resource : ρ) : s.Yields E placeholder id (.ok resource) s' :=
  ⟨hkeep, nofun, nofun⟩

def IsSoft (cause : LoadError) : Prop := ∃ reason, cause = .unavailable reason

theorem yields_soft (hkeep : s.Keeps s') {cause : LoadError} (hsoft : IsSoft cause) (hid : id ≠ placeholder) :
    s.Yields E placeholder id (.error cause : Except LoadError ρ) s' := by
  obtain ⟨reason, rfl⟩ := hsoft
  refine ⟨hkeep, ?_, fun _ _ => hid⟩
  intro _ h
  cases h

theorem yields_fatal (hkeep : s.Keeps s') {cause : SlotError} (h : E cause) :
    s.Yields E placeholder id (.error (.fatal cause) : Except LoadError ρ) s' := by
  refine ⟨hkeep, ?_, ?_⟩
  · intro _ heq
    cases heq
    exact h
  · intro _ heq
    cases heq

/-- What a step fails with is what the load fails with. -/
theorem Yields.fails {ρ' : Type} {cause : LoadError}
    (h : s.Yields E placeholder id (.error cause : Except LoadError ρ') s') :
    s.Yields E placeholder id (.error cause : Except LoadError ρ) s' := by
  refine ⟨h.keeps, ?_, ?_⟩
  · intro cause' hcause
    cases hcause
    exact h.fatal _ rfl
  · intro reason hreason
    cases hreason
    exact h.missing _ rfl

/-- An asset that cannot be read does not stand in for others. -/
theorem yields_of_read (h : s.Ready) {bytes : ByteArray} (hstock : s.assets.inMemory? placeholder = some bytes)
    {cause : AssetError} (hread : s.assets.read id = .error cause) :
    s.Yields E placeholder id (.error (.ofAsset cause) : Except LoadError ρ) s := by
  obtain ⟨hcause, hnone⟩ := missing_of_read h.root hread
  refine yields_soft (.refl s) ⟨_, hcause⟩ ?_
  rintro rfl
  rw [hstock] at hnone
  cases hnone

end Yields

theorem not_refused (h : s.Ready) (name : String) : name ∉ s.uploader.refused := by
  rw [h.refused]
  exact List.not_mem_nil

theorem loadTexture_yields (h : s.Ready) (id : AssetId) :
    s.Yields (fun _ => False) (.ofPath missingTexture) id (s.loadTexture id).1 (s.loadTexture id).2 := by
  obtain ⟨file, image, hfile, himage⟩ := h.stocked.texture
  rw [loadTexture]
  split
  next hread => exact yields_of_read h hfile hread
  next bytes hread =>
    split
    next hdecode =>
      refine yields_soft (.refl s) ⟨_, rfl⟩ ?_
      rintro rfl
      rw [read_of_inMemory hfile] at hread
      cases hread
      rw [decode?, himage] at hdecode
      cases hdecode
    next data _ =>
      rw [Uploader.uploadTexture, if_neg (not_refused h _)]
      exact yields_ok (keeps_upload (.inl ⟨_, _, if_neg (not_refused h (s.assets.describe id))⟩)) _

section Faces

theorem bind_error {ε α β : Type} {x : Except ε α} {f : α → Except ε β} {cause : ε}
    (h : (x >>= f) = .error cause) : x = .error cause ∨ ∃ a, x = .ok a ∧ f a = .error cause := by
  cases x with
  | error e =>
      cases h
      exact .inl rfl
  | ok a => exact .inr ⟨a, rfl, h⟩

theorem isSoft_taken {β : Type} {results : Vector (Option β) faceCount} {cause : LoadError}
    (h : taken results = .error cause) : IsSoft cause := by
  rw [taken] at h
  split at h
  · cases h
  · cases h
    exact ⟨_, rfl⟩

theorem isSoft_decoded {faces : Vector (Except String TextureData) faceCount} {cause : LoadError}
    (h : decoded faces = .error cause) : IsSoft cause := by
  rw [decoded] at h
  split at h
  · cases h
  · cases h
    exact ⟨_, rfl⟩

theorem isSoft_checkSquare {faces : Vector TextureData faceCount} {cause : LoadError}
    (h : checkSquare faces = .error cause) : IsSoft cause := by
  rw [checkSquare] at h
  split at h
  · cases h
    exact ⟨_, rfl⟩
  · cases h

theorem isSoft_ofSquares {faces : Vector TextureData faceCount} {order : List (Fin faceCount)} {cause : LoadError}
    (h : ofSquares faces order = .error cause) : IsSoft cause := by
  rw [ofSquares] at h
  rcases bind_error h with htaken | ⟨_, _, hend⟩
  · exact isSoft_taken htaken
  · cases hend

theorem isSoft_facesOf {paths : Vector String faceCount} {order : List (Fin faceCount)} {cause : LoadError}
    (h : facesOf s paths order = .error cause) : IsSoft cause := by
  rw [facesOf] at h
  rcases bind_error h with htaken | ⟨_, _, hdecoded⟩
  · exact isSoft_taken htaken
  · exact isSoft_decoded hdecoded

theorem isSoft_facePaths {document : Option Json} {cause : LoadError} (h : facePaths document = .error cause) :
    IsSoft cause := by
  rw [facePaths] at h
  split at h
  · cases h
    exact ⟨_, rfl⟩
  · split at h
    · cases h
    · cases h
      exact ⟨_, rfl⟩

theorem decoded_ok (faces : Vector TextureData faceCount) : decoded (faces.map .ok) = .ok faces := by
  have hmap : (faces.map (Except.ok (ε := String))).mapM id = .ok faces := by
    rw [Vector.mapM_map]
    exact (Vector.mapM_pure id).trans (congrArg _ (Vector.map_id faces))
  rw [decoded, hmap]

/-- Once each job has stored its face, faces that decode are those of the cubemap. -/
theorem facesOf_ok {paths : Vector String faceCount} {order : List (Fin faceCount)} (horder : ∀ f, f ∈ order)
    {images : Vector Pixmap faceCount}
    (hfaces : ∀ f, decodeFace s (paths.get f) = .ok ((images.get f).texture true)) :
    facesOf s paths order = .ok (images.map (·.texture true)) := by
  have hresults : Vector.ofFn (fun f => decodeFace s (paths.get f)) = (images.map (·.texture true)).map .ok := by
    apply Vector.ext
    intro i hi
    rw [Vector.getElem_ofFn, Vector.getElem_map, Vector.getElem_map]
    exact hfaces ⟨i, hi⟩
  rw [facesOf, collect_eq horder, taken_ofFn, hresults]
  exact decoded_ok _

end Faces

def LacksLists (cause : SlotError) : Prop := ∃ lists, cause = .jobs (.noFreeJobLists lists)

theorem lacksLists_of_forBatch {pool : Pool} {cause : JobError} (h : pool.forBatch = .error cause) :
    LacksLists (.jobs cause) := by
  rw [Pool.forBatch] at h
  rcases bind_error h with hclaim | ⟨_, _, hend⟩
  · rw [Pool.claim] at hclaim
    split at hclaim
    · cases hclaim
    · cases hclaim
      exact ⟨_, rfl⟩
  · cases hend

/-- Nothing but a list can be lacking for the faces, and not if what stands in for missing cubemaps lists them. -/
theorem decodeFaces_yields (h : s.Ready) (hends : s.jobs.RunsToEnd faceCount) {id : AssetId} {file : ByteArray}
    {paths : Vector String faceCount} (hread : s.assets.read id = .ok file)
    (hpaths : facePaths (Json.read? file) = .ok paths) :
    s.Yields LacksLists (.ofPath missingCubemap) id (s.decodeFaces paths).1 (s.decodeFaces paths).2 ∧
      ∀ faces, (s.decodeFaces paths).1 = .ok faces → id = .ofPath missingCubemap →
        ∃ (images : Vector Pixmap faceCount) (n : Nat), faces = images.map (·.texture true) ∧
          ∀ f, (images.get f).width = n ∧ (images.get f).height = n := by
  rw [decodeFaces]
  split
  next cause hbatch =>
    exact ⟨yields_fatal (.refl s) (lacksLists_of_forBatch (Pool.forBatch_of_error hbatch)), by simp⟩
  next order jobs hbatch =>
    obtain ⟨horder, hends'⟩ := Pool.runBatch_of_runsToEnd hends hbatch
    have hkeep : s.Keeps { s.registerFaces paths with jobs := jobs } :=
      { s.keeps_registerFaces paths with batches := fun _ => hends' }
    generalize { s.registerFaces paths with jobs := jobs } = s' at hkeep
    have hstands (hid : id = .ofPath missingCubemap) : ∃ (images : Vector Pixmap faceCount) (n : Nat),
        facesOf s' paths order = .ok (images.map (·.texture true)) ∧
          ∀ f, (images.get f).width = n ∧ (images.get f).height = n := by
      obtain ⟨file', paths', hfile', hpaths', images, n, hfaces⟩ := h.stocked.cubemap
      rw [hid, read_of_inMemory hfile'] at hread
      cases hread
      rw [hpaths'] at hpaths
      cases hpaths
      refine ⟨images, n, facesOf_ok (fun f => horder f (List.mem_finRange f)) fun f => ?_, fun f => (hfaces f).2⟩
      obtain ⟨⟨face, hface, himage⟩, _⟩ := hfaces f
      rw [← hkeep.inMemory?] at hface
      rw [decodeFace, read_of_inMemory hface]
      dsimp only
      rw [decode?, hkeep.decoder, himage]
      rfl
    dsimp only
    rcases hresult : facesOf s' paths order with cause | faces
    · refine ⟨yields_soft hkeep (isSoft_facesOf hresult) fun hid => ?_, by simp⟩
      obtain ⟨images, n, hfaces, _⟩ := hstands hid
      cases hresult.symm.trans hfaces
    · refine ⟨yields_ok hkeep faces, fun faces' hsame hid => ?_⟩
      cases hsame
      obtain ⟨images, n, hfaces, hsquare⟩ := hstands hid
      exact ⟨images, n, Except.ok.inj (hresult.symm.trans hfaces), hsquare⟩

theorem assembleFaces_yields (hends : s.jobs.RunsToEnd faceCount) {id : AssetId} {faces : Vector TextureData faceCount}
    (hstands : id = .ofPath missingCubemap → ∃ (images : Vector Pixmap faceCount) (n : Nat),
      faces = images.map (·.texture true) ∧ ∀ f, (images.get f).width = n ∧ (images.get f).height = n) :
    s.Yields LacksLists (.ofPath missingCubemap) id (s.assembleFaces faces).1 (s.assembleFaces faces).2 := by
  have hassemble {order : List (Fin faceCount)} (hid : id = .ofPath missingCubemap) (horder : ∀ f, f ∈ order) :
      ∃ data, assemble faces order = .ok data := by
    obtain ⟨images, n, rfl, hsquare⟩ := hstands hid
    exact ⟨_, assemble_square hsquare horder⟩
  rw [assembleFaces]
  split
  next cause hcheck =>
    refine yields_soft (.refl s) (isSoft_checkSquare hcheck) fun hid => ?_
    obtain ⟨data, hdata⟩ := hassemble hid List.mem_finRange
    rw [assemble, hcheck] at hdata
    cases hdata
  next hcheck =>
    split
    next cause hbatch => exact yields_fatal (.refl s) (lacksLists_of_forBatch (Pool.forBatch_of_error hbatch))
    next order jobs hbatch =>
      obtain ⟨horder, hends'⟩ := Pool.runBatch_of_runsToEnd hends hbatch
      have hkeep : s.Keeps { s with jobs := jobs } := ⟨rfl, rfl, rfl, rfl, fun _ => hends'⟩
      dsimp only
      rcases hresult : ofSquares faces order with cause | data
      · refine yields_soft hkeep (isSoft_ofSquares hresult) fun hid => ?_
        obtain ⟨data, hdata⟩ := hassemble hid fun f => horder f (List.mem_finRange f)
        rw [assemble, hcheck] at hdata
        cases hresult.symm.trans hdata
      · exact yields_ok hkeep data

theorem Yields.trans {ρ : Type} {E : SlotError → Prop} {placeholder id : AssetId} {outcome : Except LoadError ρ}
    (hkeep : s.Keeps s') (h : s'.Yields E placeholder id outcome s'') : s.Yields E placeholder id outcome s'' :=
  ⟨hkeep.trans h.keeps, h.fatal, h.missing⟩

theorem cubemapData_yields (h : s.Ready) (hends : s.jobs.RunsToEnd faceCount) (id : AssetId) :
    s.Yields LacksLists (.ofPath missingCubemap) id (s.cubemapData id).1 (s.cubemapData id).2 := by
  obtain ⟨file, paths, hfile, hpaths, _⟩ := h.stocked.cubemap
  rw [cubemapData]
  split
  next hread => exact yields_of_read h hfile hread
  next bytes hread =>
    split
    next cause hlist =>
      refine yields_soft (.refl s) (isSoft_facePaths hlist) ?_
      rintro rfl
      rw [read_of_inMemory hfile] at hread
      cases hread
      rw [hpaths] at hlist
      cases hlist
    next paths' hlist =>
      obtain ⟨hdecode, hfaces⟩ := decodeFaces_yields h hends hread hlist
      split
      next cause s' heq =>
        rw [heq] at hdecode
        exact hdecode.fails
      next faces s' heq =>
        rw [heq] at hdecode hfaces
        exact .trans hdecode.keeps (assembleFaces_yields (hdecode.keeps.batches hends) (hfaces faces rfl))

theorem loadCubemap_yields (h : s.Ready) (hends : s.jobs.RunsToEnd faceCount) (id : AssetId) :
    s.Yields LacksLists (.ofPath missingCubemap) id (s.loadCubemap id).1 (s.loadCubemap id).2 := by
  have hdata := cubemapData_yields h hends id
  rw [loadCubemap]
  split
  next cause s' heq =>
    rw [heq] at hdata
    exact hdata.fails
  next data s' heq =>
    rw [heq] at hdata
    have hready := h.keep hdata.keeps
    rw [Uploader.uploadCubemap, if_neg (not_refused hready _)]
    exact yields_ok (hdata.keeps.trans
      (keeps_upload (.inr ⟨_, data, if_neg (not_refused hready (s'.assets.describe id))⟩))) _

end Services

section Loaders

theorem textureLoader_soft : textureLoader.Soft Services.Ready fun _ => False where
  note event s h := h.keep (s.keeps_note event)
  load id t s h := by
    have hyields := s.loadTexture_yields h id
    exact ⟨_, _, rfl, h.keep hyields.keeps, hyields.fatal, hyields.missing⟩

def FacesReady (s : Services) : Prop := s.Ready ∧ s.jobs.RunsToEnd faceCount

theorem cubemapLoader_soft : cubemapLoader.Soft FacesReady Services.LacksLists where
  note event s h := ⟨h.1.keep (s.keeps_note event), h.2⟩
  load id t s h := by
    have hyields := s.loadCubemap_yields h.1 h.2 id
    exact ⟨_, _, rfl, ⟨h.1.keep hyields.keeps, hyields.keeps.batches h.2⟩, hyields.fatal, hyields.missing⟩

def MapsReady (w : TextureTable × Services) : Prop := w.1.Settled (.ofPath missingTexture) ∧ w.2.Ready

def LacksTextureSlots (cause : SlotError) : Prop := cause = .outOfSlots "texture" textureSlots

theorem tracks_ready : Tracks fun w cause w' =>
    MapsReady w → MapsReady w' ∧ ∀ c, cause = some c → LacksTextureSlots c where
  refl w h := ⟨h, by simp⟩
  trans h h' hw := h' (h hw).1
  register textures s path h := ⟨⟨h.1, h.2.keep (s.keeps_register path)⟩, by simp⟩
  markLinear _ _ _ h := ⟨⟨h.1, h.2.keep ⟨rfl, rfl, rfl, rfl, fun h => h⟩⟩, by simp⟩
  load id w h := by
    obtain ⟨hgives, hready⟩ := textureLoader_soft.loadOrGet textureLoader_orderly h.1 h.2 id
    refine ⟨⟨h.1.leads (textureLoader_orderly.loadOrGet id w), hready⟩, ?_⟩
    intro c hc
    rcases hresult : (textureLoader.loadOrGet id w).1 with cause | slot
    · rw [hresult] at hc hgives
      cases hc
      exact hgives.elim (fun h => h) False.elim
    · rw [hresult] at hc
      cases hc

theorem materialDocument_error {s : Services} (h : s.Ready) {id : AssetId} {cause : LoadError}
    (herror : materialDocument s id = .error cause) :
    Services.IsSoft cause ∧ id ≠ .ofPath missingMaterial := by
  obtain ⟨file, document, hfile, hdocument⟩ := h.stocked.material
  rw [materialDocument] at herror
  split at herror
  next hread =>
    cases herror
    obtain ⟨hcause, hnone⟩ := missing_of_read h.root hread
    refine ⟨⟨_, hcause⟩, ?_⟩
    rintro rfl
    rw [hfile] at hnone
    cases hnone
  next bytes hread =>
    split at herror
    next hnone =>
      cases herror
      refine ⟨⟨_, rfl⟩, ?_⟩
      rintro rfl
      rw [read_of_inMemory hfile] at hread
      cases hread
      rw [hdocument] at hnone
      cases hnone
    next => cases herror

theorem materialLoader_soft : materialLoader.Soft MapsReady LacksTextureSlots where
  note event w h := ⟨h.1, h.2.keep (w.2.keeps_note event)⟩
  load id t w h := by
    refine ⟨(loadMaterial id w).1, (loadMaterial id w).2, rfl, ?_⟩
    rw [loadMaterial]
    split
    next cause herror =>
      obtain ⟨⟨reason, rfl⟩, hid⟩ := materialDocument_error h.2 herror
      exact ⟨h, by simp, fun _ _ => hid⟩
    next document _ =>
      obtain ⟨hready, hfails⟩ := tracks_ready.mapSlots document w h
      rcases hrun : (mapSlots document).run w with ⟨cause | maps, w'⟩
      · rw [hrun] at hready hfails
        refine ⟨hready, fun cause' heq => ?_, by simp⟩
        cases heq
        exact hfails cause rfl
      · rw [hrun] at hready
        exact ⟨hready, by simp, by simp⟩

end Loaders

namespace TableName

def placeholder : TableName → AssetId
  | .textures => .ofPath missingTexture
  | .materials => .ofPath missingMaterial
  | .cubemaps => .ofPath missingCubemap

inductive Lacks : TableName → SlotError → Prop
  | textures : Lacks .textures (.outOfSlots "texture" textureSlots)
  | materials : Lacks .materials (.outOfSlots "material" materialSlots)
  | maps : Lacks .materials (.outOfSlots "texture" textureSlots)
  | cubemaps : Lacks .cubemaps (.outOfSlots "cubemap" cubemapSlots)
  | lists (lists) : Lacks .cubemaps (.jobs (.noFreeJobLists lists))

end TableName

namespace Engine

def stateAt? (e : Engine) (table : TableName) (slot : Nat) : Option (SlotState AssetId) :=
  match table with
  | .textures => e.textures.states[slot]?
  | .materials => e.materials.states[slot]?
  | .cubemaps => e.cubemaps.states[slot]?

inductive Answers (table : TableName) (id : AssetId) : Except SlotError Nat × Engine → Prop
  | holds {slot e} (hstate : e.stateAt? table slot = some (.resident id)) : Answers table id (.ok slot, e)
  | standsIn {slot e} (hstate : e.stateAt? table slot = some (.resident table.placeholder)) :
      Answers table id (.ok slot, e)
  | lacks {cause e} (hlack : table.Lacks cause) : Answers table id (.error cause, e)

theorem Used.ready {e : Engine} (h : e.Used) (hroot : e.services.assets.root = none)
    (hstocked : e.services.Stocked) : e.services.Ready := by
  obtain ⟨_, hcalls⟩ := used_iff.mp h
  obtain ⟨_, hlog, _⟩ := hcalls.accounts
  exact ⟨hroot, hlog.calls.refused, hstocked⟩

/-- What a table gives is what the engine answers, with the slot's number. -/
theorem answers_of_gives {σ ρ : Type} {N : Nat} {L : Loader σ AssetId ρ N} {E : SlotError → Prop} {id : AssetId}
    {t : Table AssetId ρ N} {result : Except SlotError (Fin N)} {table : TableName} {e : Engine}
    (h : L.Gives E id t result) (hplaceholder : L.placeholder = table.placeholder)
    (hstates : ∀ slot, e.stateAt? table slot = t.states[slot]?) (hlacks : ∀ cause, L.Fails E cause → table.Lacks cause) :
    Answers table id (result.map (·.val), e) := by
  cases result with
  | error cause => exact .lacks (hlacks cause h)
  | ok slot =>
      rcases h.getElem? with hstate | hstate
      · exact .holds ((hstates slot).trans hstate)
      · rw [hplaceholder] at hstate
        exact .standsIn ((hstates slot).trans hstate)

/-- With every asset in memory, what stands in for missing ones in order, and batches of faces that run to their ends, a
call on a table of an engine in use gives a slot that holds the asset or what stands in for it, or fails for lack of
slots or job lists. -/
theorem loadOrGet_answers {e : Engine} (h : e.Used) (hroot : e.services.assets.root = none)
    (hstocked : e.services.Stocked) (table : TableName)
    (hends : table = .cubemaps → e.services.jobs.RunsToEnd Cubemap.faceCount) (id : AssetId) :
    Answers table id (e.loadOrGet table id) := by
  have hready := h.ready hroot hstocked
  obtain ⟨htextures, hmaterials, hcubemaps⟩ := h.settled
  cases table with
  | textures =>
      obtain ⟨hgives, _⟩ := textureLoader_soft.loadOrGet textureLoader_orderly htextures hready id
      refine answers_of_gives hgives rfl (fun _ => rfl) ?_
      rintro cause (rfl | hnone)
      · exact .textures
      · exact hnone.elim
  | materials =>
      have hmaps : MapsReady (e.textures, e.services) := ⟨htextures, hready⟩
      obtain ⟨hgives, _⟩ := materialLoader_soft.loadOrGet materialLoader_orderly hmaterials hmaps id
      refine answers_of_gives hgives rfl (fun _ => rfl) ?_
      rintro cause (rfl | rfl)
      · exact .materials
      · exact .maps
  | cubemaps =>
      obtain ⟨hgives, _⟩ := cubemapLoader_soft.loadOrGet cubemapLoader_orderly hcubemaps ⟨hready, hends rfl⟩ id
      refine answers_of_gives hgives rfl (fun _ => rfl) ?_
      rintro cause (rfl | ⟨lists, rfl⟩)
      · exact .cubemaps
      · exact .lists lists

section Witness

theorem pixmap?_pixelFile :
    ∃ image, Image.pixmap? pixelFile = some image ∧ image.width = 1 ∧ image.height = 1 := by
  have hsize : (Image.pixmap? pixelFile).map (fun image => (image.width, image.height)) = some (1, 1) := by
    decide +kernel
  obtain ⟨image, himage, hsides⟩ := Option.map_eq_some_iff.mp hsize
  exact ⟨image, himage, congrArg Prod.fst hsides, congrArg Prod.snd hsides⟩

theorem pixelServices_stocked : pixelServices.Stocked := by
  obtain ⟨image, himage, hwidth, hheight⟩ := pixmap?_pixelFile
  have htexture : pixelServices.assets.inMemory? (.ofPath missingTexture) = some pixelFile := by decide +kernel
  have hface : pixelServices.assets.inMemory? (.ofPath "sky.png") = some pixelFile := by decide +kernel
  have hmaterial : ((pixelServices.assets.inMemory? (.ofPath missingMaterial)).bind fun bytes =>
      (Json.read? bytes).bind Document.ofJson?).isSome := by decide +kernel
  have hcubemap : ((pixelServices.assets.inMemory? (.ofPath missingCubemap)).map fun bytes =>
      facePaths (Json.read? bytes)) = some (.ok (Vector.replicate faceCount "sky.png")) := by decide +kernel
  obtain ⟨file, hfile, hpaths⟩ := Option.map_eq_some_iff.mp hcubemap
  obtain ⟨document, hdocument⟩ := Option.isSome_iff_exists.mp hmaterial
  obtain ⟨bytes, hbytes, hdocument⟩ := Option.bind_eq_some_iff.mp hdocument
  refine ⟨⟨pixelFile, image, htexture, himage⟩, ⟨bytes, document, hbytes, hdocument⟩, file, _, hfile, hpaths,
    Vector.replicate faceCount image, 1, fun f => ?_⟩
  have hpath : (Vector.replicate faceCount "sky.png").get f = "sky.png" := Vector.getElem_replicate f.isLt
  have himages : (Vector.replicate faceCount image).get f = image := Vector.getElem_replicate f.isLt
  rw [hpath, himages]
  exact ⟨⟨pixelFile, hface, himage⟩, hwidth, hheight⟩

theorem keeps_ofServices (s : Services) : s.Keeps (ofServices s).services :=
  ((s.keeps_register _).trans (Services.keeps_register _ _)).trans (Services.keeps_register _ _)

/-- Its batches run to their ends, but its jobs do not end one after another. -/
def shuffledServices : Services :=
  { pixelServices with
    jobs := { pixelServices.jobs with courses := [[5, 3, 1, 0, 2, 4], [1, 0, 3, 2, 5, 4]] } }

theorem shuffledServices_runsToEnd : shuffledServices.jobs.RunsToEnd faceCount := by
  rw [Pool.RunsToEnd]
  decide +kernel

/-- Nothing is known of the cubemap: its slot is the one of the cubemap that stands in for it. -/
theorem loadOrGet_answers_hall :
    ((ofServices shuffledServices).loadOrGet .cubemaps (.ofPath "hall.json")).1 = .ok 0 ∧
      Answers .cubemaps (.ofPath "hall.json")
        ((ofServices shuffledServices).loadOrGet .cubemaps (.ofPath "hall.json")) := by
  have hkeep := keeps_ofServices shuffledServices
  have hused : (ofServices shuffledServices).Used := .start rfl
  have hroot : shuffledServices.assets.root = none := by decide +kernel
  have hstocked : shuffledServices.Stocked :=
    ⟨pixelServices_stocked.texture, pixelServices_stocked.material, pixelServices_stocked.cubemap⟩
  have hslot : ((ofServices shuffledServices).loadOrGet .cubemaps (.ofPath "hall.json")).1 = .ok 0 := by
    decide +kernel
  exact ⟨hslot, loadOrGet_answers hused (hkeep.root.trans hroot) (hstocked.keep hkeep) _
    (fun _ => hkeep.batches shuffledServices_runsToEnd) _⟩

/-- Its two workers and its list are those of a system that starves the second batch it is asked for. -/
def starvedServices : Services :=
  { pixelServices with jobs := ((System.ofThreads 2 1 : System Nat 1).pool 2).foresees starvedExchanges }

/-- A batch of faces that is answered before its jobs have run makes a cubemap unavailable that is in memory, and so
the one that stands in for missing ones. -/
theorem loadOrGet_starved :
    (∃ s, (System.ofThreads 2 1).Serves System.AsksPool 2 starvedExchanges s) ∧
      (ofServices starvedServices).Used ∧ (ofServices starvedServices).services.assets.root = none ∧
      (ofServices starvedServices).services.Stocked ∧
      ((ofServices starvedServices).loadOrGet .cubemaps (.ofPath missingCubemap)).1 =
        .error (.missingPlaceholder "cubemap" missingCubemap "cubemap face job produced no output") ∧
      ¬ Answers .cubemaps (.ofPath missingCubemap)
        ((ofServices starvedServices).loadOrGet .cubemaps (.ofPath missingCubemap)) := by
  have hkeep := keeps_ofServices starvedServices
  have hroot : starvedServices.assets.root = none := by decide +kernel
  have hstocked : starvedServices.Stocked :=
    ⟨pixelServices_stocked.texture, pixelServices_stocked.material, pixelServices_stocked.cubemap⟩
  have hresult : ((ofServices starvedServices).loadOrGet .cubemaps (.ofPath missingCubemap)).1 =
      .error (.missingPlaceholder "cubemap" missingCubemap "cubemap face job produced no output") := by
    decide +kernel
  refine ⟨⟨_, serves_starved⟩, .start rfl, hkeep.root.trans hroot, hstocked.keep hkeep, hresult, fun hanswers => ?_⟩
  rcases hcall : (ofServices starvedServices).loadOrGet .cubemaps (.ofPath missingCubemap) with ⟨result, e⟩
  rw [hcall] at hresult hanswers
  obtain rfl : result = _ := hresult
  cases hanswers with
  | lacks hlack => cases hlack

end Witness

end Engine

end FrameEngine
