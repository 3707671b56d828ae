import FrameEngine.Cubemap.Data
import FrameEngine.Indexing
import FrameEngine.Proofs.Cubemap.Mips

namespace FrameEngine.Cubemap

open FrameEngine.Slots FrameEngine.Texture Indexing

section Results

variable {β : Type} {job : Fin faceCount → β} {order : List (Fin faceCount)} {face : Fin faceCount}

theorem get_stored (results : Vector (Option β) faceCount)
    (h : face ∈ order ∨ results.get face = some (job face)) :
    (order.foldl (fun results (f : Fin faceCount) => results.set f.val (some (job f)) f.isLt) results).get face =
      some (job face) := by
  induction order generalizing results with
  | nil => exact h.resolve_left (List.not_mem_nil)
  | cons f order ih =>
      apply ih
      by_cases he : f = face
      · subst he
        exact .inr (get_set_self _ _ _)
      · rw [get_set_of_ne _ _ he]
        exact h.imp_left fun hmem => (List.mem_cons.mp hmem).resolve_left (Ne.symm he)

/-- Once each job has stored its result, the order in which they did is forgotten. -/
theorem collect_eq (h : ∀ f, f ∈ order) : collect job order = Vector.ofFn fun f => some (job f) := by
  apply Vector.ext
  intro i hi
  have hget : (collect job order).get ⟨i, hi⟩ = some (job ⟨i, hi⟩) := get_stored _ (.inl (h _))
  rw [Vector.getElem_ofFn]
  exact hget

theorem taken_ofFn (value : Fin faceCount → β) :
    taken (Vector.ofFn fun f => some (value f)) = .ok (Vector.ofFn value) := by
  have hfound : (Vector.ofFn fun f => some (value f)).toList.filterMap id = List.ofFn value := by
    rw [Vector.toList_ofFn, ← Function.comp_def some value, ← List.map_ofFn, List.filterMap_map]
    exact List.filterMap_some
  rw [taken]
  simp only [hfound]
  rw [dif_pos List.length_ofFn]
  congr 1

end Results

section Levels

variable {chains : Vector (List (Array UInt8)) faceCount} {size i more k : Nat}

theorem length_levelsFrom : (levelsFrom chains size i more).length = more := by
  induction more generalizing size i with
  | zero => rfl
  | succ more ih => rw [levelsFrom, List.length_cons, ih]

theorem getElem?_levelsFrom (h : k < more) :
    (levelsFrom chains size i more)[k]? = some (level chains (half^[k] size) (i + k)) := by
  induction k generalizing size i more with
  | zero =>
      obtain ⟨more, rfl⟩ : ∃ m, more = m + 1 := ⟨more - 1, by omega⟩
      rfl
  | succ k ih =>
      obtain ⟨more, rfl⟩ : ∃ m, more = m + 1 := ⟨more - 1, by omega⟩
      rw [levelsFrom, List.getElem?_cons_succ, ih (by omega), Function.iterate_succ_apply,
        Nat.add_right_comm, Nat.add_assoc]

end Levels

/-- A cubemap of decoded images. Level `i` is `n >>> i` wide, and each of its faces has all of its bytes.
The first level is a face made linear, and each further one the box-filtered level before it, which
is at least two wide. -/
structure IsMipsOf (images : Vector Pixmap faceCount) (n : Nat) (data : CubemapData) : Prop where
  size_eq : data.size = n
  format_eq : data.format = .rgba8Unorm
  length_levels : data.levels.length = mipCount n
  side_eq : ∀ (i : Nat) level, data.levels[i]? = some level → level.size = n >>> i
  complete : ∀ level ∈ data.levels, ∀ f, (level.faces.get f).size = 4 * (level.size * level.size)
  present : ∀ (i : Nat) level, data.levels[i]? = some level → ∀ f,
    (faceLevels ((images.get f).texture true) (mipCount n))[i]? = some (level.faces.get f)
  linearized : ∀ level, data.levels[0]? = some level → ∀ f,
    IsLinearized (images.get f).pixels (level.faces.get f)
  filtered : ∀ (i : Nat) level next, data.levels[i]? = some level → data.levels[i + 1]? = some next →
    2 ≤ level.size ∧ ∀ f, IsBoxFiltered level.size (level.faces.get f) (next.faces.get f)

section Assembly

variable {images : Vector Pixmap faceCount} {n i : Nat} {f : Fin faceCount}

theorem get_map {α β : Type} (g : α → β) (v : Vector α faceCount) (f : Fin faceCount) :
    (v.map g).get f = g (v.get f) :=
  Vector.getElem_map g f.isLt

def faceChain (image : Pixmap) (n : Nat) : List (Array UInt8) := chain (linearize image.pixels) n (mipCount n - 1)

theorem faceLevels_eq (hwidth : (images.get f).width = n) :
    faceLevels ((images.get f).texture true) (mipCount n) = faceChain (images.get f) n := by
  rw [faceChain, ← hwidth]
  rfl

theorem getElem?_faceChain (image : Pixmap) (hi : i < mipCount n) :
    (faceChain image n)[i]? = some ((faceChain image n).getD i #[]) := by
  have hlength : i < (faceChain image n).length := by rw [faceChain, length_chain]; omega
  rw [List.getD_eq_getElem?_getD, List.getElem?_eq_getElem hlength]
  rfl

theorem size_linearize (hsquare : (images.get f).width = n ∧ (images.get f).height = n) :
    (linearize (images.get f).pixels).size = 4 * (n * n) := by
  rw [(isLinearized_linearize _).size_eq, (images.get f).size_pixels, hsquare.1, hsquare.2]

theorem misshapen?_square (hsquare : ∀ f, (images.get f).width = n ∧ (images.get f).height = n) :
    misshapen? (images.map (·.texture true)) n = none := by
  rw [misshapen?, List.find?_eq_none]
  intro face hface
  obtain ⟨i, hi, rfl⟩ := Vector.getElem_of_mem (Vector.mem_toList_iff.mp hface)
  obtain ⟨hwidth, hheight⟩ := hsquare ⟨i, hi⟩
  rw [Vector.getElem_map]
  simp only [decide_eq_true_eq, not_or, not_not]
  exact ⟨hwidth, hheight⟩

/-- Six square faces of one size make a cubemap, whatever the order in which their jobs end. -/
theorem assemble_square (hsquare : ∀ f, (images.get f).width = n ∧ (images.get f).height = n)
    {order : List (Fin faceCount)} (horder : ∀ f, f ∈ order) :
    assemble (images.map (·.texture true)) order =
      .ok ⟨n, .rgba8Unorm, levelsFrom (Vector.ofFn fun f => faceChain (images.get f) n) n 0 (mipCount n)⟩ := by
  have hwidth : (images.map (·.texture true))[0].width = n := by
    rw [Vector.getElem_map]
    exact (hsquare ⟨0, by decide⟩).1
  have hchains : (fun f => faceLevels ((images.map (·.texture true)).get f) (mipCount n)) =
      fun f => faceChain (images.get f) n := by
    funext f
    rw [get_map, faceLevels_eq (hsquare f).1]
  have hcheck : checkSquare (images.map (·.texture true)) = .ok () := by
    rw [checkSquare, hwidth, misshapen?_square hsquare]
  rw [assemble, hcheck]
  change ofSquares _ _ = _
  rw [ofSquares, hwidth]
  simp only [hchains, collect_eq horder, taken_ofFn]
  have hformat : (images.map (·.texture true))[0].format = .rgba8Srgb := by
    rw [Vector.getElem_map]
    rfl
  rw [hformat]
  rfl

/-- A level of the chains of six images: its number is below the count of mips, and its faces come from the
chains of their own images. -/
theorem level_of_chains {level : CubemapLevel}
    (h : (levelsFrom (Vector.ofFn fun f => faceChain (images.get f) n) n 0 (mipCount n))[i]? = some level) :
    i < mipCount n ∧ level.size = n >>> i ∧
      ∀ f, (faceChain (images.get f) n)[i]? = some (level.faces.get f) := by
  have hi : i < mipCount n := by
    obtain ⟨hlt, _⟩ := List.getElem?_eq_some_iff.mp h
    rwa [length_levelsFrom] at hlt
  rw [getElem?_levelsFrom hi, iterate_half hi, Nat.zero_add] at h
  rw [← Option.some.inj h]
  refine ⟨hi, rfl, fun f => ?_⟩
  have hface : (Cubemap.level (Vector.ofFn fun f => faceChain (images.get f) n) (n >>> i) i).faces.get f =
      (faceChain (images.get f) n).getD i #[] := by
    rw [Cubemap.level, get_map]
    congr 1
    exact Vector.getElem_ofFn f.isLt
  rw [hface]
  exact getElem?_faceChain _ hi

end Assembly

/-- Six decoded images of `n` by `n` pixels make a cubemap with all of its mips, in whatever order the jobs of
the faces end; without any pixels it has one level. -/
theorem assemble_mips (images : Vector Pixmap faceCount) (n : Nat) (order : List (Fin faceCount))
    (hsquare : ∀ f, (images.get f).width = n ∧ (images.get f).height = n) (horder : ∀ f, f ∈ order) :
    ∃ data, assemble (images.map (·.texture true)) order = .ok data ∧ IsMipsOf images n data := by
  refine ⟨_, assemble_square hsquare horder, rfl, rfl, length_levelsFrom, ?_, ?_, ?_, ?_, ?_⟩
  · intro i level h
    exact (level_of_chains h).2.1
  · intro level hmem f
    obtain ⟨i, h⟩ := List.mem_iff_getElem?.mp hmem
    obtain ⟨hi, hside, hfaces⟩ := level_of_chains h
    rw [hside]
    exact size_of_chain (size_linearize (hsquare f)) hi (hfaces f)
  · intro i level h f
    rw [faceLevels_eq (hsquare f).1]
    exact (level_of_chains h).2.2 f
  · intro level h f
    have hface := (level_of_chains h).2.2 f
    rw [faceChain, head_chain] at hface
    rw [← Option.some.inj hface]
    exact isLinearized_linearize _
  · intro i level next h hnext
    obtain ⟨hi, hside, hfaces⟩ := level_of_chains h
    obtain ⟨hi', _, hfaces'⟩ := level_of_chains hnext
    rw [hside]
    refine ⟨two_le_side hi', fun f => ?_⟩
    have hsize := size_of_chain (size_linearize (hsquare f)) hi (hfaces f)
    exact filtered_of_chain hsize hi' (hfaces f) (hfaces' f)

def plainFaces : Vector Pixmap faceCount :=
  Vector.ofFn fun f => (TextureData.solidColor 5 5 (UInt8.ofNat f.val) 100 200 7).toPixmap

theorem assemble_mips_plainFaces :
    ∃ data, assemble (plainFaces.map (·.texture true)) (List.finRange faceCount).reverse = .ok data ∧
      IsMipsOf plainFaces 5 data := by
  apply assemble_mips
  · intro f
    have hface : plainFaces.get f = (TextureData.solidColor 5 5 (UInt8.ofNat f.val) 100 200 7).toPixmap :=
      Vector.getElem_ofFn f.isLt
    rw [hface]
    exact ⟨rfl, rfl⟩
  · intro f
    exact List.mem_reverse.mpr (List.mem_finRange f)

end FrameEngine.Cubemap
