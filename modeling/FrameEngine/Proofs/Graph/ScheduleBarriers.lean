import FrameEngine.Proofs.Graph.BarrierSources
import FrameEngine.Proofs.Graph.SolvedOrder

namespace FrameEngine.Graph

variable {ω : Type}

def entries (passes : List (Pass ω)) (lists : List (List ImageBarrier)) : List Entry :=
  List.zipWith (fun pass barriers => ⟨pass.io, barriers⟩) passes lists

def FirstUndefined (imports : List Usage) (past : List PassIo) (passes : List (Pass ω)) (pass : Pass ω)
    (read : Usage) : Prop :=
  ∃ before after earlier later, passes = before ++ pass :: after ∧ pass.io.reads = earlier ++ read :: later ∧
    ¬ Defined imports (past ++ before.map (·.io)) read.image ∧
    (∀ r ∈ earlier, Defined imports (past ++ before.map (·.io)) r.image) ∧
    ∀ first p rest, before = first ++ p :: rest →
      ∀ r ∈ p.io.reads, Defined imports (past ++ first.map (·.io)) r.image

theorem Entry.Complete.defined {imports : List Usage} {aspects : AspectTable} {past : List Entry} {entry : Entry}
    (h : entry.Complete imports aspects past) {read : Usage} (hr : read ∈ entry.io.reads) :
    Defined imports (past.map (·.io)) read.image := by
  have hm : read.image ∈ entry.barriers.map (·.image) := by
    rw [h.images, List.mem_eraseDups]
    exact List.mem_map_of_mem hr
  obtain ⟨b, hb, himage⟩ := List.mem_map.mp hm
  obtain ⟨use, since, hs, _⟩ := (h.meets b hb).source
  rw [himage] at hs
  exact hs.defined

theorem FirstUndefined.cons {imports : List Usage} {past : List PassIo} {passes : List (Pass ω)}
    {first pass : Pass ω} {read : Usage} (hfirst : ∀ r ∈ first.io.reads, Defined imports past r.image)
    (h : FirstUndefined imports (past ++ [first.io]) passes pass read) :
    FirstUndefined imports past (first :: passes) pass read := by
  obtain ⟨before, after, earlier, later, hsplit, hreads, hundef, hearlier, hbefore⟩ := h
  refine ⟨first :: before, after, earlier, later, by rw [hsplit]; rfl, hreads, ?_, ?_, ?_⟩
  · simpa using hundef
  · simpa using hearlier
  · intro start p rest hstart
    cases start with
    | nil =>
        obtain ⟨rfl, _⟩ := List.cons.inj hstart
        simpa using hfirst
    | cons q start =>
        obtain ⟨rfl, htail⟩ := List.cons.inj hstart
        simpa using hbefore start p rest htail

theorem passBarriers_ok {aspects : AspectTable} {io : PassIo} {states after : ImageStates}
    {barriers : List ImageBarrier} (h : ImageStates.passBarriers aspects io states = .ok (barriers, after)) :
    ∃ middle, ImageStates.ReadsServed aspects io.reads [] states barriers middle ∧
      after = io.writes.foldl ImageStates.write middle := by
  rw [ImageStates.passBarriers] at h
  split at h
  · cases h
  next found =>
    cases h
    exact ⟨_, ImageStates.readBarriers_served found, rfl⟩

theorem passBarriers_error {imports : List Usage} {past : List Entry} {aspects : AspectTable} {io : PassIo}
    {states : ImageStates} (ht : Tracks imports past states) {image : ImageHandle}
    (h : ImageStates.passBarriers aspects io states = .error image) :
    ∃ earlier read later, io.reads = earlier ++ read :: later ∧ read.image = image ∧
      ¬ Defined imports (past.map (·.io)) read.image ∧
      ∀ r ∈ earlier, Defined imports (past.map (·.io)) r.image := by
  rw [ImageStates.passBarriers] at h
  split at h
  next found =>
    cases h
    obtain ⟨earlier, read, later, hsplit, himage, _, hnone, hbefore⟩ := ImageStates.readBarriers_undefined found
    refine ⟨earlier, read, later, hsplit, himage, ht.unknown _ hnone, fun r hr => ?_⟩
    exact (ht.get?_ne_none_iff r.image).mp ((hbefore r hr).resolve_left (by simp))
  · cases h

def Answers (imports : List Usage) (aspects : AspectTable) (past : List Entry) (passes : List (Pass ω)) :
    Except GraphError (List (List ImageBarrier)) → Prop
  | .ok lists => lists.length = passes.length ∧
      ∀ before entry after, entries passes lists = before ++ entry :: after →
        entry.Complete imports aspects (past ++ before)
  | .error cause => ∃ pass read, FirstUndefined imports (past.map (·.io)) passes pass read ∧
      cause = .undefinedLayout read.image pass.name

theorem answers_nil (imports : List Usage) (aspects : AspectTable) (past : List Entry) :
    Answers imports aspects past ([] : List (Pass ω)) (.ok []) :=
  ⟨rfl, fun before entry after hsplit => by simp [entries] at hsplit⟩

theorem Answers.cons {imports : List Usage} {aspects : AspectTable} {past : List Entry} {pass : Pass ω}
    {passes : List (Pass ω)} {barriers : List ImageBarrier}
    {result : Except GraphError (List (List ImageBarrier))}
    (hentry : Entry.Complete imports aspects past ⟨pass.io, barriers⟩)
    (h : Answers imports aspects (past ++ [⟨pass.io, barriers⟩]) passes result) :
    Answers imports aspects past (pass :: passes) (result.map (barriers :: ·)) := by
  cases result with
  | error cause =>
      obtain ⟨p, read, hfirst, hcause⟩ := h
      rw [List.map_append, List.map_singleton] at hfirst
      exact ⟨p, read, hfirst.cons fun r hr => hentry.defined hr, hcause⟩
  | ok lists =>
      obtain ⟨hlength, hcomplete⟩ := h
      refine ⟨congrArg (· + 1) hlength, fun before entry after hsplit => ?_⟩
      cases before with
      | nil =>
          obtain ⟨rfl, _⟩ := List.cons.inj hsplit
          rwa [List.append_nil]
      | cons first before =>
          obtain ⟨rfl, htail⟩ := List.cons.inj hsplit
          have hc := hcomplete before entry after htail
          rwa [List.append_assoc] at hc

theorem answers_undefined {imports : List Usage} {aspects : AspectTable} {past : List Entry} {pass : Pass ω}
    (passes : List (Pass ω)) {states : ImageStates} (ht : Tracks imports past states) {image : ImageHandle}
    (h : ImageStates.passBarriers aspects pass.io states = .error image) :
    Answers imports aspects past (pass :: passes) (.error (.undefinedLayout image pass.name)) := by
  obtain ⟨earlier, read, later, hreads, rfl, hundef, hbefore⟩ := passBarriers_error ht h
  refine ⟨pass, read, ⟨[], passes, earlier, later, rfl, hreads, ?_, ?_, ?_⟩, rfl⟩
  · simpa using hundef
  · simpa using hbefore
  · intro first p rest hsplit
    simp at hsplit

namespace PassGraph

variable {g : PassGraph ω} {aspects : AspectTable}

theorem barriersFrom_cons {id : PassId} {pass : Pass ω} (hp : g.pass id = .ok pass) (rest : List PassId)
    (states : ImageStates) :
    g.barriersFrom aspects (id :: rest) states =
      match ImageStates.passBarriers aspects pass.io states with
      | .error image => .error (.undefinedLayout image pass.name)
      | .ok (barriers, after) => (g.barriersFrom aspects rest after).map (barriers :: ·) := by
  simp only [barriersFrom, hp, bind, Except.bind, pure, Except.pure]
  cases ImageStates.passBarriers aspects pass.io states with
  | error image => rfl
  | ok made => cases g.barriersFrom aspects rest made.2 <;> rfl

theorem barriersFrom_answers {order : List PassId} {passes : List (Pass ω)} {past : List Entry}
    {states : ImageStates} (hp : order.map g.pass = passes.map .ok) (ht : Tracks g.imports past states) :
    Answers g.imports aspects past passes (g.barriersFrom aspects order states) := by
  -- the states are handed from pass to pass, and `Tracks` says what they know of the passes before
  induction order generalizing passes past states with
  | nil =>
      obtain rfl := List.map_eq_nil_iff.mp hp.symm
      exact answers_nil g.imports aspects past
  | cons id rest ih =>
      cases passes with
      | nil => cases hp
      | cons pass passes =>
          obtain ⟨hid, hrest⟩ := List.cons.inj hp
          rw [barriersFrom_cons hid]
          cases hmade : ImageStates.passBarriers aspects pass.io states with
          | error image => exact answers_undefined passes ht hmade
          | ok made =>
              obtain ⟨barriers, after⟩ := made
              obtain ⟨middle, hserved, rfl⟩ := passBarriers_ok hmade
              exact (ih hrest (ht.entry hserved)).cons (ht.complete hserved)

theorem complete_of_barriers {order : List PassId} {passes : List (Pass ω)} {lists : List (List ImageBarrier)}
    (hp : order.map g.pass = passes.map .ok) (h : g.barriers aspects order = .ok lists) :
    lists.length = order.length ∧ ∀ before entry after, entries passes lists = before ++ entry :: after →
      entry.Complete g.imports aspects before := by
  have ha : Answers g.imports aspects [] passes (g.barriers aspects order) :=
    barriersFrom_answers hp (tracks_ofImports g.imports)
  rw [h] at ha
  have hpasses : order.length = passes.length := by simpa using congrArg List.length hp
  exact ⟨ha.1.trans hpasses.symm, ha.2⟩

theorem undefined_of_barriers {order : List PassId} {passes : List (Pass ω)} {cause : GraphError}
    (hp : order.map g.pass = passes.map .ok) (h : g.barriers aspects order = .error cause) :
    ∃ pass read, FirstUndefined g.imports [] passes pass read ∧
      cause = .undefinedLayout read.image pass.name := by
  have ha : Answers g.imports aspects [] passes (g.barriers aspects order) :=
    barriersFrom_answers hp (tracks_ofImports g.imports)
  rw [h] at ha
  exact ha

def IsLive (g : PassGraph ω) (id : PassId) : Prop :=
  id.index.toNat < g.passes.size ∧ id.generation = g.generation

instance (g : PassGraph ω) (id : PassId) : Decidable (g.IsLive id) := inferInstanceAs (Decidable (_ ∧ _))

theorem pass_of_isLive {id : PassId} (h : g.IsLive id) : ∃ pass, g.pass id = .ok pass := by
  obtain ⟨hlt, hgeneration⟩ := h
  exact ⟨g.passes[id.index.toNat], by
    simp [PassGraph.pass, position, hlt, hgeneration, bind, Except.bind, pure, Except.pure]⟩

theorem passes_of_isLive {order : List PassId} (h : ∀ id ∈ order, g.IsLive id) :
    ∃ passes : List (Pass ω), order.map g.pass = passes.map .ok := by
  induction order with
  | nil => exact ⟨[], rfl⟩
  | cons id rest ih =>
      obtain ⟨hid, hrest⟩ := List.forall_mem_cons.mp h
      obtain ⟨pass, hpass⟩ := pass_of_isLive hid
      obtain ⟨passes, hpasses⟩ := ih hrest
      exact ⟨pass :: passes, by rw [List.map_cons, hpass, hpasses, List.map_cons]⟩

theorem entries_split {before after : List (Pass ω)} {pass : Pass ω} {lists : List (List ImageBarrier)}
    (h : lists.length = (before ++ pass :: after).length) :
    ∃ done barriers rest, entries (before ++ pass :: after) lists = done ++ ⟨pass.io, barriers⟩ :: rest ∧
      done.map (·.io) = before.map (·.io) := by
  induction before generalizing lists with
  | nil =>
      cases lists with
      | nil => cases h
      | cons barriers lists => exact ⟨[], barriers, _, rfl, rfl⟩
  | cons first before ih =>
      cases lists with
      | nil => cases h
      | cons list lists =>
          obtain ⟨done, barriers, rest, hsplit, hdone⟩ := ih (Nat.succ.inj h)
          refine ⟨⟨first.io, list⟩ :: done, barriers, rest, ?_, by rw [List.map_cons, List.map_cons, hdone]⟩
          exact congrArg (⟨first.io, list⟩ :: ·) hsplit

theorem barriers_fail_iff {order : List PassId} {passes : List (Pass ω)}
    (hp : order.map g.pass = passes.map .ok) :
    (∃ cause, g.barriers aspects order = .error cause) ↔
      ∃ before pass after read, passes = before ++ pass :: after ∧ read ∈ pass.io.reads ∧
        ¬ Defined g.imports (before.map (·.io)) read.image := by
  constructor
  · rintro ⟨cause, h⟩
    obtain ⟨pass, read, ⟨before, after, earlier, later, hsplit, hreads, hundef, _⟩, _⟩ :=
      undefined_of_barriers hp h
    exact ⟨before, pass, after, read, hsplit, hreads ▸ by simp, hundef⟩
  · rintro ⟨before, pass, after, read, rfl, hread, hundef⟩
    cases h : g.barriers aspects order with
    | error cause => exact ⟨cause, rfl⟩
    | ok lists =>
        obtain ⟨hlength, hcomplete⟩ := complete_of_barriers hp h
        have hpasses : order.length = (before ++ pass :: after).length := by
          simpa using congrArg List.length hp
        obtain ⟨done, barriers, rest, hentries, hdone⟩ := entries_split (hlength.trans hpasses)
        have hd := (hcomplete _ _ _ hentries).defined hread
        rw [hdone] at hd
        exact absurd hd hundef

/-- For passes in any order, repeated or left out, every list of barriers is complete, and there are no
lists exactly when a pass reads an image that no earlier pass writes and that is not imported; the
first such read is reported. -/
theorem barriers_complete (g : PassGraph ω) (aspects : AspectTable) (order : List PassId)
    (h : ∀ id ∈ order, g.IsLive id) :
    ∃ passes : List (Pass ω), order.map g.pass = passes.map .ok ∧
      (∀ lists, g.barriers aspects order = .ok lists → lists.length = order.length ∧
        ∀ before entry after, entries passes lists = before ++ entry :: after →
          entry.Complete g.imports aspects before) ∧
      (∀ cause, g.barriers aspects order = .error cause →
        ∃ pass read, FirstUndefined g.imports [] passes pass read ∧
          cause = .undefinedLayout read.image pass.name) ∧
      ((∃ cause, g.barriers aspects order = .error cause) ↔
        ∃ before pass after read, passes = before ++ pass :: after ∧ read ∈ pass.io.reads ∧
          ¬ Defined g.imports (before.map (·.io)) read.image) := by
  obtain ⟨passes, hp⟩ := passes_of_isLive h
  exact ⟨passes, hp, fun _ hok => complete_of_barriers hp hok, fun _ hfail => undefined_of_barriers hp hfail,
    barriers_fail_iff hp⟩

theorem barriers_complete_twoChains :
    (∀ id ∈ [⟨0, 7⟩, ⟨1, 7⟩, ⟨0, 7⟩], twoChains.IsLive id) ∧
      ∃ passes lists, [⟨0, 7⟩, ⟨1, 7⟩, ⟨0, 7⟩].map twoChains.pass = passes.map .ok ∧
        twoChains.barriers [] [⟨0, 7⟩, ⟨1, 7⟩, ⟨0, 7⟩] = .ok lists ∧ lists.length = 3 ∧
        ∀ before entry after, entries passes lists = before ++ entry :: after →
          entry.Complete twoChains.imports [] before := by
  have hlive : ∀ id ∈ [⟨0, 7⟩, ⟨1, 7⟩, ⟨0, 7⟩], twoChains.IsLive id := by decide
  obtain ⟨passes, hp, hok, _⟩ := barriers_complete twoChains [] _ hlive
  have hlists : ∃ lists, twoChains.barriers [] [⟨0, 7⟩, ⟨1, 7⟩, ⟨0, 7⟩] = .ok lists := ⟨_, rfl⟩
  obtain ⟨lists, hlists⟩ := hlists
  exact ⟨hlive, passes, lists, hp, hlists, hok lists hlists⟩

end PassGraph

end FrameEngine.Graph
