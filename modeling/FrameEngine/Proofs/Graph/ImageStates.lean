import FrameEngine.Graph.Barriers

namespace FrameEngine.Graph

def firstUse? (uses : List Usage) (image : ImageHandle) : Option Usage := uses.find? (·.image = image)

def lastUse? (uses : List Usage) (image : ImageHandle) : Option Usage := uses.reverse.find? (·.image = image)

theorem firstUse?_cons (use : Usage) (uses : List Usage) (image : ImageHandle) :
    firstUse? (use :: uses) image = if use.image = image then some use else firstUse? uses image := by
  by_cases h : use.image = image <;> simp [firstUse?, h]

theorem lastUse?_cons (use : Usage) (uses : List Usage) (image : ImageHandle) :
    lastUse? (use :: uses) image = (lastUse? uses image).or (if use.image = image then some use else none) := by
  by_cases h : use.image = image <;> simp [lastUse?, List.find?_append, h]

theorem lastUse?_eq_none_iff {uses : List Usage} {image : ImageHandle} :
    lastUse? uses image = none ↔ ∀ use ∈ uses, use.image ≠ image := by
  simp [lastUse?]

theorem lastUse?_mem {uses : List Usage} {image : ImageHandle} {use : Usage}
    (h : lastUse? uses image = some use) :
    use ∈ uses ∧ use.image = image :=
  ⟨List.mem_reverse.mp (List.mem_of_find?_eq_some h), by simpa using List.find?_some h⟩

namespace ImageStates

theorem get?_cons (states : ImageStates) (handle image : ImageHandle) (state : ImageState) :
    get? ((handle, state) :: states) image = if handle = image then some state else states.get? image := by
  by_cases h : handle = image <;> simp [get?, h]

theorem get?_foldl_write (uses : List Usage) (states : ImageStates) (image : ImageHandle) :
    (uses.foldl write states).get? image =
      ((lastUse? uses image).map fun use => ⟨use, use.layout⟩).or (states.get? image) := by
  induction uses generalizing states with
  | nil => rfl
  | cons use uses ih =>
      rw [List.foldl_cons, ih, write, get?_cons, lastUse?_cons]
      cases lastUse? uses image with
      | some last => rfl
      | none => by_cases h : use.image = image <;> simp [h]

theorem get?_ofImports (imports : List Usage) (image : ImageHandle) :
    (ofImports imports).get? image = (lastUse? imports image).map fun use => ⟨use, use.layout⟩ := by
  rw [ofImports, get?_foldl_write]
  exact Option.or_none

structure ReadsServed (aspects : AspectTable) (reads : List Usage) (seen : List ImageHandle)
    (states : ImageStates) (barriers : List ImageBarrier) (after : ImageStates) : Prop where
  images : barriers.map (·.image) = ((reads.map (·.image)).filter (· ∉ seen)).eraseDups
  served : ∀ b ∈ barriers, ∃ read state, firstUse? reads b.image = some read ∧
    states.get? b.image = some state ∧ b = .between state.write state.layout read (aspects.aspects b.image)
  moved : ∀ b ∈ barriers, ∀ state, states.get? b.image = some state →
    after.get? b.image = some { state with layout := b.newLayout }
  kept : ∀ image, (∀ b ∈ barriers, b.image ≠ image) → after.get? image = states.get? image

theorem ReadsServed.ne_of_seen {aspects : AspectTable} {reads : List Usage} {seen : List ImageHandle}
    {states after : ImageStates} {barriers : List ImageBarrier}
    (h : ReadsServed aspects reads seen states barriers after) {image : ImageHandle} (hs : image ∈ seen)
    {b : ImageBarrier} (hb : b ∈ barriers) : image ≠ b.image := by
  rintro rfl
  have hm : b.image ∈ barriers.map (·.image) := List.mem_map_of_mem hb
  rw [h.images, List.mem_eraseDups, List.mem_filter] at hm
  simp [hs] at hm

theorem ReadsServed.nil (aspects : AspectTable) (seen : List ImageHandle) (states : ImageStates) :
    ReadsServed aspects [] seen states [] states where
  images := rfl
  served _ hb := by cases hb
  moved _ hb := by cases hb
  kept _ _ := rfl

theorem ReadsServed.skip {aspects : AspectTable} {read : Usage} {rest : List Usage} {seen : List ImageHandle}
    {states after : ImageStates} {barriers : List ImageBarrier} (hread : read.image ∈ seen)
    (h : ReadsServed aspects rest seen states barriers after) :
    ReadsServed aspects (read :: rest) seen states barriers after where
  images := by
    rw [h.images, List.map_cons, List.filter_cons_of_neg (by simpa using hread)]
  served b hb := by
    rw [firstUse?_cons, if_neg (h.ne_of_seen hread hb)]
    exact h.served b hb
  moved := h.moved
  kept := h.kept

theorem ReadsServed.serve {aspects : AspectTable} {read : Usage} {rest : List Usage} {seen : List ImageHandle}
    {states after : ImageStates} {barriers : List ImageBarrier} {state : ImageState} (hread : read.image ∉ seen)
    (hstate : states.get? read.image = some state)
    (h : ReadsServed aspects rest (read.image :: seen)
      ((read.image, { state with layout := read.layout }) :: states) barriers after) :
    ReadsServed aspects (read :: rest) seen states
      (.between state.write state.layout read (aspects.aspects read.image) :: barriers) after where
  images := by
    rw [List.map_cons, h.images, List.map_cons, List.filter_cons_of_pos (by simpa using hread),
      List.eraseDups_cons, List.filter_filter]
    congr 2
    apply List.filter_congr
    intro image _
    by_cases he : image = read.image <;> simp [he]
  served b hb := by
    rcases List.mem_cons.mp hb with rfl | hb
    · exact ⟨read, state, by simp [firstUse?_cons, ImageBarrier.between], hstate, rfl⟩
    · have hne : read.image ≠ b.image := h.ne_of_seen List.mem_cons_self hb
      obtain ⟨first, state', hfirst, hstate', hb'⟩ := h.served b hb
      rw [get?_cons, if_neg hne] at hstate'
      exact ⟨first, state', by rw [firstUse?_cons, if_neg hne, hfirst], hstate', hb'⟩
  moved b hb state' hstate' := by
    rcases List.mem_cons.mp hb with rfl | hb
    · have hnone : ∀ b ∈ barriers, b.image ≠ read.image :=
        fun b hb => (h.ne_of_seen List.mem_cons_self hb).symm
      obtain rfl : state = state' := Option.some.inj (hstate.symm.trans hstate')
      change after.get? read.image = _
      rw [h.kept read.image hnone, get?_cons, if_pos rfl]
      rfl
    · have hne : read.image ≠ b.image := h.ne_of_seen List.mem_cons_self hb
      exact h.moved b hb state' (by rw [get?_cons, if_neg hne, hstate'])
  kept image himage := by
    have hne : read.image ≠ image := himage _ List.mem_cons_self
    rw [h.kept image fun b hb => himage b (List.mem_cons_of_mem _ hb), get?_cons, if_neg hne]

theorem readBarriers_served {aspects : AspectTable} {reads : List Usage} {seen : List ImageHandle}
    {states after : ImageStates} {barriers : List ImageBarrier}
    (h : readBarriers aspects reads seen states = .ok (barriers, after)) :
    ReadsServed aspects reads seen states barriers after := by
  induction reads generalizing seen states barriers with
  | nil =>
      cases h
      exact .nil aspects seen _
  | cons read rest ih =>
      rw [readBarriers] at h
      split at h
      next hread => exact (ih h).skip hread
      next hread =>
        split at h
        · cases h
        next state hstate =>
          dsimp only at h
          split at h
          · cases h
          next found =>
            cases h
            exact (ih found).serve hread hstate

/-- The image that has no state is the first such among the reads. -/
theorem readBarriers_undefined {aspects : AspectTable} {reads : List Usage} {seen : List ImageHandle}
    {states : ImageStates} {image : ImageHandle} (h : readBarriers aspects reads seen states = .error image) :
    ∃ before read after, reads = before ++ read :: after ∧ read.image = image ∧ read.image ∉ seen ∧
      states.get? read.image = none ∧ ∀ r ∈ before, r.image ∈ seen ∨ states.get? r.image ≠ none := by
  induction reads generalizing seen states with
  | nil => cases h
  | cons read rest ih =>
      rw [readBarriers] at h
      split at h
      next hread =>
        obtain ⟨before, first, after, hsplit, hfirst, hseen, hnone, hbefore⟩ := ih h
        refine ⟨read :: before, first, after, by rw [hsplit]; rfl, hfirst, hseen, hnone, ?_⟩
        exact List.forall_mem_cons.mpr ⟨Or.inl hread, hbefore⟩
      next hread =>
        split at h
        next hnone =>
          cases h
          exact ⟨[], read, rest, rfl, rfl, hread, hnone, fun r hr => by cases hr⟩
        next state hstate =>
          dsimp only at h
          split at h
          next found =>
            cases h
            obtain ⟨before, first, after, hsplit, hfirst, hseen, hnone, hbefore⟩ := ih found
            obtain ⟨hne, hseen⟩ := not_or.mp (mt List.mem_cons.mpr hseen)
            rw [get?_cons, if_neg (Ne.symm hne)] at hnone
            refine ⟨read :: before, first, after, by rw [hsplit]; rfl, hfirst, hseen, hnone, ?_⟩
            refine List.forall_mem_cons.mpr ⟨Or.inr (by simp [hstate]), fun r hr => ?_⟩
            -- reads of the image just served find the state that it was served from
            by_cases he : read.image = r.image
            · exact Or.inr (by simp [← he, hstate])
            · rcases hbefore r hr with hs | hs
              · exact Or.inl ((List.mem_cons.mp hs).resolve_left (Ne.symm he))
              · rw [get?_cons, if_neg he] at hs
                exact Or.inr hs
          next => cases h

end ImageStates

end FrameEngine.Graph
