import FrameEngine.Proofs.Engine.Softness

namespace FrameEngine

open FrameEngine.Asset FrameEngine.Cubemap FrameEngine.Jobs FrameEngine.Slots FrameEngine.Texture

section Sequence

variable {ε α : Type} {results : List (Except ε α)}

theorem results_of_mapM {values : List α} (h : results.mapM id = .ok values) : results = values.map .ok := by
  induction results generalizing values with
  | nil =>
      cases h
      rfl
  | cons result results ih =>
      rw [List.mapM_cons] at h
      rcases result with cause | value
      · cases h
      · rcases hrest : results.mapM id with cause | rest
        · rw [hrest] at h
          cases h
        · rw [hrest] at h
          cases h
          rw [ih hrest]
          rfl

/-- The error of a sequence is its first one. -/
theorem first_of_mapM {cause : ε} (h : results.mapM id = .error cause) :
    ∃ i : Nat, results[i]? = some (Except.error cause) ∧
      ∀ j < i, ∃ value, results[j]? = some (Except.ok value) := by
  induction results with
  | nil => cases h
  | cons result results ih =>
      rw [List.mapM_cons] at h
      rcases result with other | value
      · cases h
        exact ⟨0, rfl, by simp⟩
      · rcases hrest : results.mapM id with other | rest
        · rw [hrest] at h
          cases h
          obtain ⟨i, hi, hbefore⟩ := ih hrest
          refine ⟨i + 1, hi, fun j hj => ?_⟩
          cases j with
          | zero => exact ⟨value, rfl⟩
          | succ j => exact hbefore j (Nat.lt_of_succ_lt_succ hj)
        · rw [hrest] at h
          cases h

end Sequence

namespace Cubemap

def IsSquare (n : Nat) (image : Pixmap) : Prop := image.width = n ∧ image.height = n

instance (n : Nat) (image : Pixmap) : Decidable (IsSquare n image) :=
  inferInstanceAs (Decidable (image.width = n ∧ image.height = n))

/-- What is said about a cubemap with the given faces, of which some may have failed. The first that failed gives the
reason. If none has, they have to be squares as wide as the first, and the first that is not gives the reason. Squares
make a cubemap with the mips of each face. -/
inductive Told (faces : Fin faceCount → Except String TextureData) : Except LoadError CubemapData → Prop
  | failed {f reason} (hface : faces f = .error reason) (hbefore : ∀ g < f, ∃ face, faces g = .ok face) :
      Told faces (.error (.unavailable reason))
  | misshapen {images : Vector Pixmap faceCount} {f n} (hfaces : ∀ g, faces g = .ok ((images.get g).texture true))
      (hfirst : ∀ g, g.val = 0 → (images.get g).width = n) (hface : ¬ IsSquare n (images.get f))
      (hbefore : ∀ g < f, IsSquare n (images.get g)) :
      Told faces (.error (.unavailable (misshapenReason n ((images.get f).texture true))))
  | made {images : Vector Pixmap faceCount} {n data} (hfaces : ∀ g, faces g = .ok ((images.get g).texture true))
      (hsquare : ∀ g, IsSquare n (images.get g)) (hdata : IsMipsOf images n data) : Told faces (.ok data)

variable {faces : Fin faceCount → Except String TextureData} {images : Vector Pixmap faceCount}

/-- Six results, one by one: the first that failed decides, or all of them are there. -/
theorem decoded_ofFn (faces : Fin faceCount → Except String TextureData) :
    (∃ f reason, decoded (Vector.ofFn faces) = .error (.unavailable reason) ∧ faces f = .error reason ∧
      ∀ g < f, ∃ face, faces g = .ok face) ∨
    ∃ values : Vector TextureData faceCount, decoded (Vector.ofFn faces) = .ok values ∧
      ∀ f, faces f = .ok (values.get f) := by
  have hlist : Array.toList <$> (Vector.toArray <$> (Vector.ofFn faces).mapM id) = (List.ofFn faces).mapM id := by
    rw [Vector.toArray_mapM, Array.toList_mapM, ← Vector.toList_ofFn]
    rfl
  have hat (i : Nat) {result} (h : (List.ofFn faces)[i]? = some result) :
      ∃ hi : i < faceCount, faces ⟨i, hi⟩ = result := by
    rw [List.getElem?_ofFn] at h
    split at h
    next hi => exact ⟨hi, Option.some.inj h⟩
    · cases h
  rw [decoded]
  rcases hresult : (Vector.ofFn faces).mapM id with reason | values
  · rw [hresult] at hlist
    obtain ⟨i, hi, hbefore⟩ := first_of_mapM hlist.symm
    obtain ⟨hlt, hface⟩ := hat i hi
    refine .inl ⟨⟨i, hlt⟩, reason, rfl, hface, fun g hg => ?_⟩
    obtain ⟨value, hvalue⟩ := hbefore g.val hg
    exact ⟨value, (hat g.val hvalue).2⟩
  · rw [hresult] at hlist
    have hvalues : List.ofFn faces = values.toList.map .ok := results_of_mapM hlist.symm
    refine .inr ⟨values, rfl, fun f => ?_⟩
    have hvalue : (List.ofFn faces)[f.val]? = some (.ok (values.get f)) := by
      rw [hvalues, List.getElem?_map, List.getElem?_eq_getElem (by rw [Vector.length_toList]; exact f.isLt)]
      rfl
    exact (hat f.val hvalue).2

/-- The first face that is no square is found. -/
theorem misshapen?_eq_some {n : Nat} {face : TextureData}
    (h : misshapen? (images.map (·.texture true)) n = some face) :
    ∃ f, face = (images.get f).texture true ∧ ¬ IsSquare n (images.get f) ∧ ∀ g < f, IsSquare n (images.get g) := by
  rw [misshapen?, List.find?_eq_some_iff_getElem] at h
  obtain ⟨hface, i, hi, rfl, hbefore⟩ := h
  have hlt : i < faceCount := by rwa [Vector.length_toList] at hi
  have hat (f : Fin faceCount) (hf : f.val < (images.map (·.texture true)).toList.length) :
      (images.map (·.texture true)).toList[f.val] = (images.get f).texture true := by
    rw [Vector.getElem_toList]
    exact get_map _ _ f
  rw [hat ⟨i, hlt⟩ hi] at hface ⊢
  refine ⟨⟨i, hlt⟩, rfl, ?_, fun g hg => ?_⟩
  · intro hsquare
    exact (of_decide_eq_true hface).elim (· hsquare.1) (· hsquare.2)
  · have hsquare := hbefore g.val hg
    rw [hat g (Nat.lt_trans (Fin.lt_def.mp hg) hi)] at hsquare
    simp only [Bool.not_eq_true', decide_eq_false_iff_not, not_or, not_not] at hsquare
    exact hsquare

theorem isSquare_of_misshapen?_none {n : Nat} (h : misshapen? (images.map (·.texture true)) n = none)
    (f : Fin faceCount) : IsSquare n (images.get f) := by
  rw [misshapen?, List.find?_eq_none] at h
  have hface := h ((images.map (·.texture true)).get f) (Vector.mem_toList_iff.mpr (Vector.getElem_mem f.isLt))
  rw [get_map] at hface
  simp only [decide_eq_true_eq, not_or, not_not] at hface
  exact hface

theorem told_assemble {mipping : List (Fin faceCount)} (hfaces : ∀ g, faces g = .ok ((images.get g).texture true))
    (hmipping : ∀ f, f ∈ mipping) : Told faces (assemble (images.map (·.texture true)) mipping) := by
  have hfirst : ∀ g : Fin faceCount, g.val = 0 → (images.get g).width = (images.map (·.texture true))[0].width := by
    rintro ⟨_, hlt⟩ rfl
    rw [Vector.getElem_map]
    rfl
  generalize hn : (images.map (·.texture true))[0].width = n at hfirst
  cases hmisshapen : misshapen? (images.map (·.texture true)) n with
  | some face =>
      obtain ⟨f, rfl, hface, hbefore⟩ := misshapen?_eq_some hmisshapen
      have hcheck : checkSquare (images.map (·.texture true)) =
          .error (.unavailable (misshapenReason n ((images.get f).texture true))) := by
        rw [checkSquare, hn, hmisshapen]
      rw [assemble, hcheck]
      exact .misshapen hfaces hfirst hface hbefore
  | none =>
      have hsquare := isSquare_of_misshapen?_none hmisshapen
      obtain ⟨data, hdata, hmips⟩ := assemble_mips images n mipping hsquare hmipping
      rw [hdata]
      exact .made hfaces hsquare hmips

end Cubemap

namespace Services

variable {s : Services} {path : String} {face : TextureData} {paths : Vector String faceCount}
  {decoding mipping : List (Fin faceCount)}

/-- What is decoded of a path is an image in sRGB. -/
theorem texture_of_decodeFace (h : decodeFace s path = .ok face) : face.toPixmap.texture true = face := by
  rw [decodeFace] at h
  split at h
  · cases h
  · split at h
    · cases h
    next hdecode =>
      cases h
      obtain ⟨image, _, rfl⟩ := Option.map_eq_some_iff.mp hdecode
      rfl

/-- The orders in which jobs store their results make no difference. -/
theorem cubemapOfFaces_eq (hdecoding : ∀ f, f ∈ decoding) (hmipping : ∀ f, f ∈ mipping) :
    cubemapOfFaces s paths decoding mipping = cubemapOfFaces s paths faceOrder faceOrder := by
  have hfaces : ∀ f, f ∈ faceOrder := List.mem_finRange
  have hassemble (faces : Vector TextureData faceCount) : assemble faces mipping = assemble faces faceOrder := by
    simp only [assemble, ofSquares, collect_eq hmipping, collect_eq hfaces]
  simp only [cubemapOfFaces, facesOf, collect_eq hdecoding, collect_eq hfaces, hassemble]

theorem told_cubemapOfFaces (hdecoding : ∀ f, f ∈ decoding) (hmipping : ∀ f, f ∈ mipping) :
    Told (fun f => decodeFace s (paths.get f)) (cubemapOfFaces s paths decoding mipping) := by
  have hresult : cubemapOfFaces s paths decoding mipping =
      decoded (Vector.ofFn fun f => decodeFace s (paths.get f)) >>= fun faces => assemble faces mipping := by
    rw [cubemapOfFaces, facesOf, collect_eq hdecoding, taken_ofFn]
    rfl
  rw [hresult]
  obtain ⟨f, reason, hdecoded, hface, hbefore⟩ | ⟨values, hdecoded, hvalues⟩ :=
    decoded_ofFn fun f => decodeFace s (paths.get f)
  · rw [hdecoded]
    exact .failed hface hbefore
  · have himages : values = (values.map TextureData.toPixmap).map (·.texture true) := by
      apply Vector.ext
      intro i hi
      rw [Vector.getElem_map, Vector.getElem_map]
      exact (texture_of_decodeFace (hvalues ⟨i, hi⟩)).symm
    have hfaces (g : Fin faceCount) :
        decodeFace s (paths.get g) = .ok (((values.map TextureData.toPixmap).get g).texture true) := by
      rw [hvalues, get_map, texture_of_decodeFace (hvalues g)]
    rw [hdecoded, himages]
    exact told_assemble hfaces hmipping

/-- The two batches of a cubemap run to their ends, with the jobs in some orders. -/
theorem cubemapData_eq (s : Services) (id : AssetId) {bytes : ByteArray} {paths : Vector String faceCount}
    (hread : s.assets.read id = .ok bytes) (hpaths : facePaths (Json.read? bytes) = .ok paths)
    (hlists : s.jobs.forBatch = .ok ()) (hends : s.jobs.RunsToEnd faceCount) :
    ∃ decoding mipping, (∀ f, f ∈ decoding) ∧ (∀ f, f ∈ mipping) ∧
      (s.cubemapData id).1 = cubemapOfFaces (s.registerFaces paths) paths decoding mipping := by
  have hfaces : ∀ f, f ∈ faceOrder := List.mem_finRange
  obtain ⟨decoding, jobs, hdecoding, hlists⟩ := Pool.exists_runBatch faceOrder hlists
  obtain ⟨mipping, jobs', hmipping, _⟩ := Pool.exists_runBatch faceOrder hlists
  obtain ⟨hdecoded, hends⟩ := Pool.runBatch_of_runsToEnd hends hdecoding
  obtain ⟨hmipped, _⟩ := Pool.runBatch_of_runsToEnd hends hmipping
  refine ⟨decoding, mipping, fun f => hdecoded f (hfaces f), fun f => hmipped f (hfaces f), ?_⟩
  have hdecode : s.decodeFaces paths = (facesOf (s.registerFaces paths) paths decoding,
      { s.registerFaces paths with jobs := jobs }) := by
    rw [decodeFaces, hdecoding]
    rfl
  rw [cubemapData, hread]
  dsimp only
  rw [hpaths]
  dsimp only
  rw [hdecode, cubemapOfFaces]
  cases facesOf (s.registerFaces paths) paths decoding with
  | error cause => rfl
  | ok faces =>
      change (assembleFaces faces _).1 = assemble faces mipping
      rw [assembleFaces, assemble]
      cases checkSquare faces with
      | error cause => rfl
      | ok =>
          dsimp only
          rw [hmipping]
          rfl

end Services

/-- In whatever orders the jobs of six faces store what they decoded, and then their mips, the answer is the same, and
told by the faces in the order of the document. -/
theorem cubemapData_any_order (s : Services) (id : AssetId) {bytes : ByteArray} {paths : Vector String faceCount}
    (hread : s.assets.read id = .ok bytes) (hpaths : facePaths (Json.read? bytes) = .ok paths)
    (hlists : s.jobs.forBatch = .ok ()) (hends : s.jobs.RunsToEnd faceCount)
    {decoding mipping : List (Fin faceCount)} (hdecoding : ∀ f, f ∈ decoding) (hmipping : ∀ f, f ∈ mipping) :
    cubemapOfFaces (s.registerFaces paths) paths decoding mipping = (s.cubemapData id).1 ∧
      Told (fun f => decodeFace (s.registerFaces paths) (paths.get f)) (s.cubemapData id).1 := by
  obtain ⟨decoding', mipping', hdecoding', hmipping', hdata⟩ := s.cubemapData_eq id hread hpaths hlists hends
  rw [hdata]
  refine ⟨?_, Services.told_cubemapOfFaces hdecoding' hmipping'⟩
  rw [Services.cubemapOfFaces_eq hdecoding hmipping, Services.cubemapOfFaces_eq hdecoding' hmipping']

def patchyServices : Services where
  assets := (pixelServices.assets.insertBytes "patchy.json" (textFile
    "[\"sky.png\", \"sky.png\", \"gone.png\", \"sky.png\", \"lost.png\", \"sky.png\"]")).2
  jobs := { pixelServices.jobs with courses := [[5, 4, 3, 2, 1, 0]] }

/-- The jobs end last first, but the reason is that of the first face. -/
theorem cubemapData_any_order_patchy : ∃ paths,
    cubemapOfFaces (patchyServices.registerFaces paths) paths faceOrder.reverse faceOrder.reverse =
      .error (.unavailable "Asset not found: gone.png") ∧
    Told (fun f => decodeFace (patchyServices.registerFaces paths) (paths.get f))
      (.error (.unavailable "Asset not found: gone.png")) := by
  have hdocument : (patchyServices.assets.read (.ofPath "patchy.json")).toOption.map
      (fun bytes => (facePaths (Json.read? bytes)).toOption.isSome) = some true := by decide +kernel
  have hanswer : ((patchyServices.cubemapData (.ofPath "patchy.json")).1.map fun _ => ()) =
      .error (.unavailable "Asset not found: gone.png") := by decide +kernel
  have hends : patchyServices.jobs.RunsToEnd faceCount := by
    rw [Jobs.Pool.RunsToEnd]
    decide +kernel
  have horder : ∀ f, f ∈ faceOrder.reverse := fun f => List.mem_reverse.mpr (List.mem_finRange f)
  rcases hread : patchyServices.assets.read (.ofPath "patchy.json") with cause | bytes
  · rw [hread] at hdocument
    cases hdocument
  · rcases hpaths : facePaths (Json.read? bytes) with cause | paths
    · rw [hread] at hdocument
      simp [hpaths, Except.toOption] at hdocument
    · obtain ⟨hsame, htold⟩ :=
        cubemapData_any_order patchyServices (.ofPath "patchy.json") hread hpaths rfl hends horder horder
      rcases hresult : (patchyServices.cubemapData (.ofPath "patchy.json")).1 with cause | data
      · rw [hresult] at hanswer hsame htold
        cases hanswer
        exact ⟨paths, hsame, htold⟩
      · rw [hresult] at hanswer
        cases hanswer

end FrameEngine
