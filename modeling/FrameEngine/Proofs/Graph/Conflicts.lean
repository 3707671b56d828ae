import FrameEngine.Proofs.Graph.Relations
import FrameEngine.Proofs.Positions

namespace FrameEngine.Graph

open PassGraph

def WritesAt (ios : List PassIo) (i : Nat) (image : ImageHandle) : Prop :=
  ∃ io, ios[i]? = some io ∧ io.writesImage image = true

theorem earliestWriter_eq_some_iff {ios : List PassIo} {image : ImageHandle} {first second : Nat} :
    (ios.take second).findIdx? (·.writesImage image) = some first ↔
      first < second ∧ WritesAt ios first image ∧ ∀ i < first, ¬ WritesAt ios i image := by
  rw [List.findIdx?_eq_some_iff_getElem]
  simp only [List.length_take, List.getElem_take, Nat.lt_min]
  constructor
  · rintro ⟨⟨hsecond, hlt⟩, hw, hnone⟩
    refine ⟨hsecond, ⟨ios[first], List.getElem?_eq_getElem hlt, hw⟩, ?_⟩
    rintro i hi ⟨io, hio, hwi⟩
    obtain ⟨_, rfl⟩ := List.getElem?_eq_some_iff.mp hio
    exact hnone i hi hwi
  · rintro ⟨hsecond, ⟨io, hio, hw⟩, hnone⟩
    obtain ⟨hlt, rfl⟩ := List.getElem?_eq_some_iff.mp hio
    exact ⟨⟨hsecond, hlt⟩, hw, fun i hi hwi => hnone i hi ⟨_, List.getElem?_eq_getElem (hi.trans hlt), hwi⟩⟩

theorem earliestWriter_eq_none_iff {ios : List PassIo} {image : ImageHandle} {second : Nat} :
    (ios.take second).findIdx? (·.writesImage image) = none ↔ ∀ i < second, ¬ WritesAt ios i image := by
  rw [List.findIdx?_eq_none_iff]
  constructor
  · rintro hnone i hi ⟨io, hio, hw⟩
    have hmem : io ∈ ios.take second := List.mem_take_iff_getElem.mpr <| by
      obtain ⟨hlt, he⟩ := List.getElem?_eq_some_iff.mp hio
      exact ⟨i, by omega, he⟩
    rw [hnone io hmem] at hw
    cases hw
  · intro hnone io hio
    obtain ⟨i, hi, rfl⟩ := List.mem_take_iff_getElem.mp hio
    refine Bool.eq_false_iff.mpr fun hw => hnone i (by omega) ⟨_, List.getElem?_eq_getElem (by omega), hw⟩

def conflictAt? (ios : List PassIo) (io : PassIo) (second : Nat) : Option (ImageHandle × Nat × Nat) :=
  io.writes.findSome? fun use =>
    ((ios.take second).findIdx? (·.writesImage use.image)).map fun first => (use.image, first, second)

theorem conflictAt?_eq_some_iff {ios : List PassIo} {io : PassIo} {image : ImageHandle}
    {first second position : Nat} :
    conflictAt? ios io position = some (image, first, second) ↔
      second = position ∧ first < position ∧ WritesAt ios first image ∧ (∀ i < first, ¬ WritesAt ios i image) ∧
        ∃ before use after, io.writes = before ++ use :: after ∧ use.image = image ∧
          ∀ w ∈ before, ∀ i < position, ¬ WritesAt ios i w.image := by
  simp only [conflictAt?, List.findSome?_eq_some_iff, Option.map_eq_some_iff, Option.map_eq_none_iff,
    Prod.mk.injEq, earliestWriter_eq_some_iff, earliestWriter_eq_none_iff]
  constructor
  · rintro ⟨before, use, after, hsplit, ⟨_, hwriter, rfl, rfl, rfl⟩, hbefore⟩
    exact ⟨rfl, hwriter.1, hwriter.2.1, hwriter.2.2, before, use, after, hsplit, rfl, hbefore⟩
  · rintro ⟨rfl, hlt, hw, hfirst, before, use, after, hsplit, rfl, hbefore⟩
    exact ⟨before, use, after, hsplit, ⟨first, ⟨hlt, hw, hfirst⟩, rfl, rfl, rfl⟩, hbefore⟩

theorem conflictAt?_eq_none_iff {ios : List PassIo} {io : PassIo} {position : Nat} :
    conflictAt? ios io position = none ↔ ∀ use ∈ io.writes, ∀ i < position, ¬ WritesAt ios i use.image := by
  simp only [conflictAt?, List.findSome?_eq_none_iff, Option.map_eq_none_iff, earliestWriter_eq_none_iff]

theorem conflict?_eq_some_iff {ios : List PassIo} {image : ImageHandle} {first second : Nat} :
    conflict? ios = some (image, first, second) ↔
      ∃ io, ios[second]? = some io ∧ conflictAt? ios io second = some (image, first, second) ∧
        ∀ j < second, ∀ io', ios[j]? = some io' → conflictAt? ios io' j = none := by
  change (ios.zipIdx.findSome? fun p => conflictAt? ios p.1 p.2) = some (image, first, second) ↔ _
  rw [Positions.findSome?_eq_some_iff_getElem?]
  simp only [List.getElem?_zipIdx, Nat.zero_add, Option.map_eq_some_iff]
  constructor
  · rintro ⟨k, _, ⟨io, hio, rfl⟩, hfound, hnone⟩
    obtain rfl := (conflictAt?_eq_some_iff.mp hfound).1
    exact ⟨io, hio, hfound, fun j hj io' hio' => hnone j hj _ ⟨io', hio', rfl⟩⟩
  · rintro ⟨io, hio, hfound, hnone⟩
    refine ⟨second, _, ⟨io, hio, rfl⟩, hfound, ?_⟩
    rintro j hj _ ⟨io', hio', rfl⟩
    exact hnone j hj io' hio'

theorem conflict?_eq_none_iff {ios : List PassIo} :
    conflict? ios = none ↔ ∀ j image, WritesAt ios j image → ∀ i < j, ¬ WritesAt ios i image := by
  change (ios.zipIdx.findSome? fun p => conflictAt? ios p.1 p.2) = none ↔ _
  simp only [List.findSome?_eq_none_iff, Prod.forall, List.mem_zipIdx_iff_getElem?, conflictAt?_eq_none_iff]
  constructor
  · rintro h j image ⟨io, hio, hw⟩
    obtain ⟨use, huse, rfl⟩ := (io.writesImage_iff image).mp hw
    exact h io j hio use huse
  · intro h io j hio use huse
    exact h j use.image ⟨io, hio, (io.writesImage_iff use.image).mpr ⟨use, huse, rfl⟩⟩

/-- A pass is in no conflict with itself. -/
example : conflict? [⟨[], [.computeStorageWrite ⟨0⟩, .colorAttachmentWrite ⟨0⟩]⟩,
    ⟨[], [.computeStorageWrite ⟨1⟩, .computeStorageWrite ⟨0⟩]⟩] = some (⟨0⟩, 0, 1) := by decide

namespace PassGraph

variable {ω : Type}

/-- The first conflict that a scan of all passes and their writes meets: `second` writes an image that
`first` writes, no pass before `first` writes it, and neither a pass before `second` nor a write that
`second` declares before this one is in conflict with an earlier pass. -/
structure FirstConflict (g : PassGraph ω) (image : ImageHandle) (first second : Fin g.passes.size) : Prop where
  earlier : first < second
  writes : g.Writes first image
  earliest : ∀ i, g.Writes i image → first ≤ i
  scanned : ∃ before use after, (g.passAt second).io.writes = before ++ use :: after ∧ use.image = image ∧
    ∀ w ∈ before, ∀ i < second, ¬ g.Writes i w.image
  unmet : ∀ j < second, ∀ i < j, ∀ image', g.Writes i image' → ¬ g.Writes j image'

theorem writesAt_iff (g : PassGraph ω) (i : Nat) (image : ImageHandle) :
    WritesAt (g.passes.toList.map (·.io)) i image ↔ ∃ h : i < g.passes.size, g.Writes ⟨i, h⟩ image := by
  simp [WritesAt, Writes, passAt, PassIo.writesImage_iff, Array.getElem?_eq_some_iff]

theorem writesAt_fin_iff (g : PassGraph ω) (i : Fin g.passes.size) (image : ImageHandle) :
    WritesAt (g.passes.toList.map (·.io)) i image ↔ g.Writes i image := by
  rw [writesAt_iff]
  exact ⟨fun h => h.2, fun h => ⟨i.isLt, h⟩⟩

theorem not_writesAt_iff (g : PassGraph ω) (second : Fin g.passes.size) (image : ImageHandle) :
    (∀ i < second.val, ¬ WritesAt (g.passes.toList.map (·.io)) i image) ↔ ∀ i < second, ¬ g.Writes i image := by
  constructor
  · intro h i hi hw
    exact h i hi ((g.writesAt_fin_iff i image).mpr hw)
  · intro h i hi hw
    obtain ⟨hlt, hw⟩ := (g.writesAt_iff i image).mp hw
    exact h ⟨i, hlt⟩ hi hw

theorem io_at (g : PassGraph ω) (i : Fin g.passes.size) :
    (g.passes.toList.map (·.io))[i.val]? = some (g.passAt i).io := by
  simp [passAt]

theorem conflictAt?_none_iff (g : PassGraph ω) (j : Fin g.passes.size) :
    conflictAt? (g.passes.toList.map (·.io)) (g.passAt j).io j = none ↔
      ∀ i < j, ∀ image, g.Writes i image → ¬ g.Writes j image := by
  rw [conflictAt?_eq_none_iff]
  simp only [not_writesAt_iff]
  constructor
  · rintro h i hi image hw ⟨use, huse, rfl⟩
    exact h use huse i hi hw
  · intro h use huse i hi hw
    exact h i hi use.image hw ⟨use, huse, rfl⟩

theorem firstConflict_iff (g : PassGraph ω) (image : ImageHandle) (a b : Nat) :
    conflict? (g.passes.toList.map (·.io)) = some (image, a, b) ↔
      ∃ first second : Fin g.passes.size, g.FirstConflict image first second ∧ a = first ∧ b = second := by
  rw [conflict?_eq_some_iff]
  constructor
  · rintro ⟨io, hio, hfound, hnone⟩
    obtain ⟨_, hlt, hw, hfirst, before, use, after, hsplit, huse, hbefore⟩ := conflictAt?_eq_some_iff.mp hfound
    obtain ⟨hb, _⟩ := List.getElem?_eq_some_iff.mp hio
    rw [List.length_map, Array.length_toList] at hb
    obtain ⟨ha, hw⟩ := (g.writesAt_iff a image).mp hw
    obtain rfl : (g.passAt ⟨b, hb⟩).io = io := Option.some.inj ((g.io_at ⟨b, hb⟩).symm.trans hio)
    refine ⟨⟨a, ha⟩, ⟨b, hb⟩, ⟨hlt, hw, fun i hi => ?_, ⟨before, use, after, hsplit, huse, fun w hmem => ?_⟩, ?_⟩,
      rfl, rfl⟩
    · exact Nat.le_of_not_lt fun hi' => hfirst i hi' ((g.writesAt_fin_iff i image).mpr hi)
    · exact (g.not_writesAt_iff ⟨b, hb⟩ w.image).mp (hbefore w hmem)
    · intro j hj
      exact (g.conflictAt?_none_iff j).mp (hnone j hj _ (g.io_at j))
  · rintro ⟨first, second, hc, rfl, rfl⟩
    obtain ⟨before, use, after, hsplit, huse, hbefore⟩ := hc.scanned
    refine ⟨_, g.io_at second, conflictAt?_eq_some_iff.mpr ⟨rfl, hc.earlier, ?_, ?_, ?_⟩, fun j hj io' hio' => ?_⟩
    · exact (g.writesAt_fin_iff first image).mpr hc.writes
    · intro i hi hw
      obtain ⟨hlt, hw⟩ := (g.writesAt_iff i image).mp hw
      exact absurd (hc.earliest ⟨i, hlt⟩ hw) (Nat.not_le_of_lt hi)
    · exact ⟨before, use, after, hsplit, huse, fun w hmem =>
        (g.not_writesAt_iff second w.image).mpr (hbefore w hmem)⟩
    · have hlt : j < g.passes.size := hj.trans second.isLt
      obtain rfl : (g.passAt ⟨j, hlt⟩).io = io' := Option.some.inj ((g.io_at ⟨j, hlt⟩).symm.trans hio')
      exact (g.conflictAt?_none_iff ⟨j, hlt⟩).mpr (hc.unmet ⟨j, hlt⟩ hj)

theorem singleWriter_iff (g : PassGraph ω) :
    conflict? (g.passes.toList.map (·.io)) = none ↔ g.SingleWriter := by
  rw [conflict?_eq_none_iff]
  constructor
  · intro h i j image hi hj
    have hi := (g.writesAt_fin_iff i image).mpr hi
    have hj := (g.writesAt_fin_iff j image).mpr hj
    rcases Nat.lt_trichotomy i.val j.val with hlt | he | hlt
    · exact absurd hi (h j image hj i hlt)
    · exact Fin.ext he
    · exact absurd hj (h i image hi j hlt)
  · intro h j image hj i hij hi
    obtain ⟨_, hj⟩ := (g.writesAt_iff j image).mp hj
    obtain ⟨_, hi⟩ := (g.writesAt_iff i image).mp hi
    exact hij.ne (congrArg Fin.val (h _ _ image hi hj))

end PassGraph

end FrameEngine.Graph
