import FrameEngine.Proofs.Graph.ImageStates
import FrameEngine.Proofs.Graph.Relations

namespace FrameEngine.Graph

structure Entry where
  io : PassIo
  barriers : List ImageBarrier

/-- The write that a read after some entries has to wait for, and the entries since. It is the last
write of the image in the nearest entry that writes it, or else the latest import. -/
inductive Source (imports : List Usage) (past : List Entry) (image : ImageHandle) : Usage → List Entry → Prop
  | written (before) (entry) {since use} (hpast : past = before ++ entry :: since)
      (huse : lastUse? entry.io.writes image = some use)
      (hsince : ∀ later ∈ since, later.io.writesImage image = false) : Source imports past image use since
  | imported {use} (huse : lastUse? imports image = some use)
      (hpast : ∀ entry ∈ past, entry.io.writesImage image = false) : Source imports past image use past

/-- The layout that the latest barrier since a write has brought the image into, or else the layout of
the write. -/
inductive LayoutNow (since : List Entry) (image : ImageHandle) (use : Usage) : Layout → Prop
  | moved (before) (entry) (after) {barrier} (hsince : since = before ++ entry :: after)
      (hbarrier : barrier ∈ entry.barriers) (himage : barrier.image = image)
      (hafter : ∀ later ∈ after, ∀ b ∈ later.barriers, b.image ≠ image) :
      LayoutNow since image use barrier.newLayout
  | unmoved (hsince : ∀ entry ∈ since, ∀ b ∈ entry.barriers, b.image ≠ image) :
      LayoutNow since image use use.layout

def Defined (imports : List Usage) (past : List PassIo) (image : ImageHandle) : Prop :=
  (∃ io ∈ past, io.writesImage image = true) ∨ ∃ use ∈ imports, use.image = image

/-- A barrier leads from the write a read has to wait for, with the layout the image is in by then, to
the first read of the image that the pass declares. -/
structure BarrierMeets (imports : List Usage) (aspects : AspectTable) (past : List Entry) (io : PassIo)
    (barrier : ImageBarrier) : Prop where
  target : ∃ read, firstUse? io.reads barrier.image = some read ∧ barrier.newLayout = read.layout ∧
    barrier.targetAccesses = read.accesses ∧ barrier.targetStages = read.stages
  source : ∃ use since, Source imports past barrier.image use since ∧ barrier.sourceAccesses = use.accesses ∧
    barrier.sourceStages = use.stages ∧ LayoutNow since barrier.image use barrier.oldLayout
  aspect : barrier.aspects = aspects.aspects barrier.image

structure Entry.Complete (imports : List Usage) (aspects : AspectTable) (past : List Entry) (entry : Entry) :
    Prop where
  images : entry.barriers.map (·.image) = (entry.io.reads.map (·.image)).eraseDups
  meets : ∀ b ∈ entry.barriers, BarrierMeets imports aspects past entry.io b

theorem Source.defined {imports : List Usage} {past : List Entry} {image : ImageHandle} {use : Usage}
    {since : List Entry} (h : Source imports past image use since) :
    Defined imports (past.map (·.io)) image := by
  cases h with
  | written before entry hpast huse hsince =>
      obtain ⟨hmem, himage⟩ := lastUse?_mem huse
      refine Or.inl ⟨entry.io, by simp [hpast], ?_⟩
      exact (entry.io.writesImage_iff image).mpr ⟨use, hmem, himage⟩
  | imported huse hpast =>
      obtain ⟨hmem, himage⟩ := lastUse?_mem huse
      exact Or.inr ⟨use, hmem, himage⟩

theorem Source.extend {imports : List Usage} {past : List Entry} {image : ImageHandle} {use : Usage}
    {since : List Entry} (h : Source imports past image use since) {entry : Entry}
    (hw : entry.io.writesImage image = false) :
    Source imports (past ++ [entry]) image use (since ++ [entry]) := by
  cases h with
  | written before writer hpast huse hsince =>
      refine .written before writer (by simp [hpast]) huse ?_
      exact List.forall_mem_append.mpr ⟨hsince, List.forall_mem_singleton.mpr hw⟩
  | imported huse hpast =>
      exact .imported huse (List.forall_mem_append.mpr ⟨hpast, List.forall_mem_singleton.mpr hw⟩)

theorem LayoutNow.extend {since : List Entry} {image : ImageHandle} {use : Usage} {layout : Layout}
    (h : LayoutNow since image use layout) {entry : Entry} (hb : ∀ b ∈ entry.barriers, b.image ≠ image) :
    LayoutNow (since ++ [entry]) image use layout := by
  cases h with
  | moved before mover after hsince hbarrier himage hafter =>
      refine .moved before mover (after ++ [entry]) (by simp [hsince]) hbarrier himage ?_
      exact List.forall_mem_append.mpr ⟨hafter, List.forall_mem_singleton.mpr hb⟩
  | unmoved hsince =>
      exact .unmoved (List.forall_mem_append.mpr ⟨hsince, List.forall_mem_singleton.mpr hb⟩)

theorem writesImage_eq_false_iff {io : PassIo} {image : ImageHandle} :
    io.writesImage image = false ↔ lastUse? io.writes image = none := by
  simp [PassIo.writesImage, lastUse?_eq_none_iff]

structure Tracks (imports : List Usage) (past : List Entry) (states : ImageStates) : Prop where
  known : ∀ image state, states.get? image = some state →
    ∃ since, Source imports past image state.write since ∧ LayoutNow since image state.write state.layout
  unknown : ∀ image, states.get? image = none → ¬ Defined imports (past.map (·.io)) image

theorem tracks_ofImports (imports : List Usage) : Tracks imports [] (ImageStates.ofImports imports) where
  known image state h := by
    rw [ImageStates.get?_ofImports, Option.map_eq_some_iff] at h
    obtain ⟨use, huse, rfl⟩ := h
    exact ⟨[], .imported huse (by simp), .unmoved (by simp)⟩
  unknown image h := by
    rw [ImageStates.get?_ofImports, Option.map_eq_none_iff, lastUse?_eq_none_iff] at h
    rintro (⟨io, hio, _⟩ | ⟨use, huse, himage⟩)
    · cases hio
    · exact h use huse himage

section Entry

variable {imports : List Usage} {aspects : AspectTable} {past : List Entry} {io : PassIo}
  {states after : ImageStates} {barriers : List ImageBarrier}

theorem Tracks.get?_ne_none_iff (ht : Tracks imports past states) (image : ImageHandle) :
    states.get? image ≠ none ↔ Defined imports (past.map (·.io)) image := by
  constructor
  · intro h
    obtain ⟨state, hstate⟩ := Option.ne_none_iff_exists'.mp h
    obtain ⟨since, hs, _⟩ := ht.known image state hstate
    exact hs.defined
  · intro hd h
    exact ht.unknown image h hd

theorem Tracks.served (ht : Tracks imports past states)
    (h : ImageStates.ReadsServed aspects io.reads [] states barriers after) {image : ImageHandle}
    (hw : io.writesImage image = false) {state : ImageState} (hstate : after.get? image = some state) :
    ∃ since, Source imports (past ++ [⟨io, barriers⟩]) image state.write since ∧
      LayoutNow since image state.write state.layout := by
  by_cases hb : ∃ b ∈ barriers, b.image = image
  · obtain ⟨b, hb, rfl⟩ := hb
    obtain ⟨read, old, _, hold, _⟩ := h.served b hb
    obtain rfl := Option.some.inj ((h.moved b hb old hold).symm.trans hstate)
    -- the barrier moves the layout; the write behind it stays
    obtain ⟨since, hs, _⟩ := ht.known b.image old hold
    exact ⟨since ++ [⟨io, barriers⟩], hs.extend hw,
      .moved since ⟨io, barriers⟩ [] rfl hb rfl (by simp)⟩
  · have hnone : ∀ b ∈ barriers, b.image ≠ image := fun b hmem himage => hb ⟨b, hmem, himage⟩
    rw [h.kept image hnone] at hstate
    obtain ⟨since, hs, hl⟩ := ht.known image state hstate
    exact ⟨since ++ [⟨io, barriers⟩], hs.extend hw, hl.extend hnone⟩

theorem Tracks.entry (ht : Tracks imports past states)
    (h : ImageStates.ReadsServed aspects io.reads [] states barriers after) :
    Tracks imports (past ++ [⟨io, barriers⟩]) (io.writes.foldl ImageStates.write after) where
  known image state hstate := by
    rw [ImageStates.get?_foldl_write] at hstate
    cases hl : lastUse? io.writes image with
    | some use =>
        rw [hl] at hstate
        cases hstate
        exact ⟨[], .written past ⟨io, barriers⟩ rfl hl (by simp), .unmoved (by simp)⟩
    | none =>
        rw [hl, Option.map_none, Option.none_or] at hstate
        exact ht.served h (writesImage_eq_false_iff.mpr hl) hstate
  unknown image hnone := by
    rw [ImageStates.get?_foldl_write, Option.or_eq_none_iff, Option.map_eq_none_iff] at hnone
    obtain ⟨hwrites, hafter⟩ := hnone
    have hb : ∀ b ∈ barriers, b.image ≠ image := by
      rintro b hb rfl
      obtain ⟨read, old, _, hold, _⟩ := h.served b hb
      rw [h.moved b hb old hold] at hafter
      cases hafter
    rw [h.kept image hb] at hafter
    rintro (⟨other, ho, hw⟩ | himport)
    · rw [List.map_append, List.mem_append] at ho
      rcases ho with ho | ho
      · exact ht.unknown image hafter (Or.inl ⟨other, ho, hw⟩)
      · obtain rfl := List.mem_singleton.mp ho
        rw [writesImage_eq_false_iff.mpr hwrites] at hw
        cases hw
    · exact ht.unknown image hafter (Or.inr himport)

theorem Tracks.complete (ht : Tracks imports past states)
    (h : ImageStates.ReadsServed aspects io.reads [] states barriers after) :
    Entry.Complete imports aspects past ⟨io, barriers⟩ where
  images := by simpa using h.images
  meets b hb := by
    obtain ⟨read, state, hread, hstate, hbetween⟩ := h.served b hb
    obtain ⟨since, hs, hl⟩ := ht.known b.image state hstate
    have hlayout : state.layout = b.oldLayout := (congrArg ImageBarrier.oldLayout hbetween).symm
    refine ⟨⟨read, hread, ?_⟩, ⟨state.write, since, hs, ?_, ?_, hlayout ▸ hl⟩, ?_⟩
    · exact ⟨congrArg ImageBarrier.newLayout hbetween, congrArg ImageBarrier.targetAccesses hbetween,
        congrArg ImageBarrier.targetStages hbetween⟩
    · exact congrArg ImageBarrier.sourceAccesses hbetween
    · exact congrArg ImageBarrier.sourceStages hbetween
    · exact congrArg ImageBarrier.aspects hbetween

end Entry

end FrameEngine.Graph
