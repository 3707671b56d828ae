import FrameEngine.Proofs.Jobs.OneClient

namespace FrameEngine.Jobs

variable {α : Type} {L : Nat}

def System.RunsBatches (s : System α L) (i : Nat) : Move α L → Prop
  | .use (.runBatch _) => s.threads[i]?.elim [] (·.phases) = []
  | .use _ => False
  | _ => True

def System.OpensDeserted (s : System α L) (i : Nat) (move : Move α L) : Prop :=
  ∀ l, (s.effect i move l).isOpening → ∀ work ∈ s.crew l, work.lingers = false

def System.SharedUse (s : System α L) (i : Nat) (move : Move α L) : Prop :=
  s.RunsBatches i move ∧ s.OpensDeserted i move

def holding? : List (Phase α L) → Option (Fin L × List (Job α))
  | .resetting list :: .batchClaiming jobs :: _ => some (list, jobs)
  | .beginning list :: .batchFilling _ jobs :: _ => some (list, jobs)
  | .counting list job :: .batchFilling _ jobs :: _ => some (list, job :: jobs)
  | .pushing list _ :: .batchFilling _ jobs :: _ => some (list, jobs)
  | .ending list :: .batchEnding _ :: _ => some (list, [])
  | .signalling :: .batchEnding list :: _ => some (list, [])
  | .inspecting list :: _ | .blocking list :: _ | .blocked list :: _ | .judging list :: _ => some (list, [])
  | _ => none

variable {s s' s₁ : System α L} {isWorker : Bool} {phase : Phase α L} {outer phases : List (Phase α L)}
  {next : Next α L} {i j : Nat} {l : Fin L} {move : Move α L} {books : Fin L → Batch α}
  {moves : List (Nat × Move α L)} {jobs : List (Job α)}

theorem not_arrived (hasks : s.RunsBatches i move) (l : Fin L) (work : Work α) :
    s.effect i move l ≠ .arrived work := by
  intro heffect
  obtain ⟨operation, rfl, hwork⟩ := arrival heffect
  cases operation with
  | runBatch jobs => cases hwork
  | _ => cases hasks

theorem orderly_of_sharedUse (hrule : s.SharedUse i move) : s.Orderly i move := by
  obtain ⟨hasks, hopens⟩ := hrule
  constructor
  · rintro operation rfl
    cases operation with
    | runBatch jobs =>
        refine ⟨rfl, fun thread hthread => ?_⟩
        have hphases : s.threads[i]?.elim [] (·.phases) = [] := hasks
        rwa [hthread] at hphases
    | _ => cases hasks
  · intro l
    cases heffect : s.effect i move l with
    | opened thread jobs => exact hopens l (by rw [heffect]; rfl)
    | arrived work => exact absurd heffect (not_arrived hasks l work)
    | _ => trivial

theorem work_of_holding (hplain : Plain isWorker phases) (h : holding? phases = some (l, jobs)) :
    ∃ work, workAt l phases = some work ∧ work.isClient ∧
      (work.lingers ∨ ∀ state, work.Fits state → state = .filling) := by
  cases hplain with
  | @loop phase hloop | @job phase hloop => cases phase <;> first | (cases hloop; done) | cases h
  | rest => cases h
  | @call phase hcall =>
      cases phase
      case inspecting => cases h; exact ⟨.inspecting, by simp, rfl, Or.inl rfl⟩
      case blocking | blocked => cases h; exact ⟨.waiting, by simp, rfl, Or.inl rfl⟩
      case judging => cases h; exact ⟨.judging, by simp, rfl, Or.inl rfl⟩
      all_goals cases h
  | claiming => cases h
  | announcing => cases h; exact ⟨.announcing, by simp, rfl, Or.inl rfl⟩
  | resetting => cases h; exact ⟨.resetting, by simp, rfl, Or.inr fun _ h => h⟩
  | beginning => cases h; exact ⟨.beginning, by simp, rfl, Or.inr fun _ h => h⟩
  | counting list job => cases h; exact ⟨.counting job, by simp, rfl, Or.inr fun _ h => h⟩
  | pushing list job => cases h; exact ⟨.pushing job, by simp, rfl, Or.inr fun _ h => h⟩
  | ending => cases h; exact ⟨.ending, by simp, rfl, Or.inr fun _ h => h⟩

def Work.Prompt (state : ListState) : Work α → Prop
  | .inspecting => state ≠ .filling
  | .weighing | .handingBack => False
  | _ => True

theorem Work.Prompt.mono {state state' : ListState} {work : Work α} (h : work.Prompt state)
    (hstate : state' = state ∨ state' ≠ .filling) : work.Prompt state' := by
  rcases hstate with rfl | hstate
  · exact h
  · cases work <;> first | exact h | exact hstate

def Desk.AllPrompt (d : Desk α) : Prop := ∀ work ∈ d.crew, work.Prompt d.list.state

section Prompt

variable {list list' : JobList α} {crew : Multiset (Work α)} {work : Work α} {d d' : Desk α} {effect : Effect α}

open Work (beside)

theorem Desk.AllPrompt.rest (h : AllPrompt ⟨list, work ::ₘ crew⟩)
    (hstate : list'.state = list.state ∨ list'.state ≠ .filling) : AllPrompt ⟨list', crew⟩ :=
  fun w hw => (h w (Multiset.mem_cons_of_mem hw)).mono hstate

theorem Desk.AllPrompt.cons (h : AllPrompt ⟨list, crew⟩) (hwork : work.Prompt list.state) :
    AllPrompt ⟨list, work ::ₘ crew⟩ :=
  Multiset.forall_mem_cons.mpr ⟨hwork, h⟩

theorem Work.Continues.prompt {next : Option (Work α)} (h : Continues next) (hd : Desk.AllPrompt ⟨list, crew⟩) :
    Desk.AllPrompt ⟨list, beside crew next⟩ := by
  unfold Continues at h
  split at h
  · exact hd
  · exact hd.cons trivial
  · exact hd.cons trivial
  · exact hd.cons trivial
  · cases h

theorem Desk.Step.prompt (h : Step d effect d') (hd : d.Sound) (hp : d.Permits effect)
    (hcome : ∀ work, effect ≠ .arrived work) (hprompt : d.AllPrompt) : d'.AllPrompt := by
  cases h with
  | rest => exact hprompt
  | @turn list crew work next h =>
      have hcrew : AllPrompt ⟨list, crew⟩ := hprompt.rest (Or.inl rfl)
      cases h with
      | miss | judge | keep | weighJobs => exact hcrew
      | announce =>
          have hfits := hd.fits .announcing (Multiset.mem_cons_self _ _)
          exact hcrew.cons hfits
      | findComplete | findDraining | wake => exact hcrew.cons trivial
      | findFilling h => exact absurd h (hprompt .inspecting (Multiset.mem_cons_self _ _))
      | weighEmpty => exact (hprompt .weighing (Multiset.mem_cons_self _ _)).elim
  | look => exact hprompt.cons trivial
  | pop | countPanic | countLast | count => exact (hprompt.rest (Or.inl rfl)).cons trivial
  | endJob _ _ job panicked =>
      refine (hprompt.rest (Or.inl rfl)).cons ?_
      rcases Work.afterJob_cases job panicked with ⟨_, he⟩ | ⟨_, _, he⟩ | ⟨_, _, he⟩ <;> rw [he] <;> trivial
  | endCallback _ _ _ panicked =>
      refine (hprompt.rest (Or.inl rfl)).cons ?_
      cases panicked <;> trivial
  | countDown => exact hprompt.rest (Or.inl rfl)
  | complete => exact hprompt.rest (Or.inr nofun)
  | arrive _ _ work => exact absurd rfl (hcome work)
  | claim _ _ h =>
      obtain rfl := hd.deserted h hp
      exact Desk.AllPrompt.cons nofun trivial
  | reopen _ _ h =>
      obtain rfl := hd.deserted h hp
      exact nofun
  | refresh => exact hprompt
  | reset _ _ _ hnext | begin _ _ _ hnext | push _ _ _ _ hnext => exact hnext.prompt (hprompt.rest (Or.inl rfl))
  | @endEmpty list crew next _ hnext =>
      have hcrew : AllPrompt ⟨{ list with state := .complete }, crew⟩ := hprompt.rest (Or.inr nofun)
      rcases hnext with rfl | rfl
      · exact hcrew
      · exact hcrew.cons nofun
  | @handOver list crew next _ hnext =>
      have hcrew : AllPrompt ⟨{ list with state := .draining }, crew⟩ := hprompt.rest (Or.inr nofun)
      rcases hnext with rfl | rfl
      · exact hcrew
      · exact hcrew.cons trivial
  | handBack => exact (hprompt .handingBack (Multiset.mem_cons_self _ _)).elim

theorem Desk.Step.ends (h : Step d effect d') (hlist : d.list.state = .filling)
    (hlist' : d'.list.state ≠ .filling) :
    effect = .quiet ∧ (.ending ∈ d.crew ∨ .handingBack ∈ d.crew ∨ .completing ∈ d.crew) := by
  cases h with
  | complete => exact ⟨rfl, Or.inr (Or.inr (Multiset.mem_cons_self _ _))⟩
  | claim _ _ h | reopen _ _ h => cases h.symm.trans hlist
  | endEmpty | handOver => exact ⟨rfl, Or.inl (Multiset.mem_cons_self _ _)⟩
  | handBack => exact ⟨rfl, Or.inr (Or.inl (Multiset.mem_cons_self _ _))⟩
  | _ => exact absurd hlist hlist'

theorem Desk.Step.filling_of_opened {thread : Nat} {jobs : List (Job α)} (h : Step d (.opened thread jobs) d') :
    d'.list.state = .filling := by
  cases h <;> rfl

end Prompt

def Batching (isWorker : Bool) (phases : List (Phase α L)) : Prop :=
  isWorker = true ∨ phases = [] ∨ (∃ list jobs, phases = [.claiming list, .batchClaiming jobs]) ∨
    ∃ l jobs, holding? phases = some (l, jobs)

def Holds (i : Nat) (before : List (Phase α L)) (l : Fin L) (jobs : List (Job α)) (effect : Effect α) : Prop :=
  effect = .opened i jobs ∨ (effect = .quiet ∧ holding? before = some (l, jobs)) ∨
    ∃ job, effect = .added job ∧ holding? before = some (l, job :: jobs)

theorem holding?_filling (list : Fin L) (jobs : List (Job α)) :
    holding? (deliver (.done (.ok ())) [.batchFilling list jobs]).2 = some (list, jobs) := by
  cases jobs <;> rfl

theorem batching_of_holding (h : holding? phases = some (l, jobs)) : Batching isWorker phases :=
  Or.inr (Or.inr (Or.inr ⟨l, jobs, h⟩))

/-- A thread that has a list for its batch goes on with it, until it returns. -/
theorem Advances.holding (h : Advances s false phase next s₁) (hplain : Plain false (phase :: outer))
    (hholding : holding? (phase :: outer) = some (l, jobs))
    (hwork : ∀ l work, workAt l (phase :: outer) = some work →
      work.Fits (s.lists.get l).state ∧ work.Prompt (s.lists.get l).state) :
    next.phases outer = [] ∨ ∃ jobs', holding? (next.phases outer) = some (l, jobs') ∧
      Holds i (phase :: outer) l jobs' (effectAt s i l (phase :: outer)) := by
  cases hplain with
  | call hcall =>
      cases phase
      case inspecting list =>
        cases hholding
        cases h with
        | findComplete | findDraining => exact Or.inr ⟨[], rfl, Or.inr (Or.inl ⟨rfl, rfl⟩)⟩
        | findFilling _ hfilling => exact absurd hfilling (hwork l .inspecting (by simp)).2
      case blocking =>
        cases hholding
        cases h with
        | block | wake => exact Or.inr ⟨[], rfl, Or.inr (Or.inl ⟨rfl, rfl⟩)⟩
      case judging => cases h; exact Or.inl rfl
      case blocked => cases h
      all_goals cases hholding
  | claiming => cases hholding
  | resetting list held =>
      cases hholding
      cases h
      exact Or.inr ⟨jobs, rfl, Or.inr (Or.inl ⟨rfl, rfl⟩)⟩
  | beginning list held =>
      cases hholding
      have hfilling : (s.lists.get l).state = .filling := (hwork l .beginning (by simp)).1
      cases h with
      | busy _ h => cases h.symm.trans hfilling
      | begin => exact Or.inr ⟨jobs, holding?_filling l jobs, Or.inr (Or.inl ⟨by simp [hfilling], rfl⟩)⟩
  | counting list job held =>
      cases hholding
      cases h
      exact Or.inr ⟨held, rfl, Or.inr (Or.inr ⟨job, by simp, rfl⟩)⟩
  | pushing list job held =>
      cases hholding
      cases h
      exact Or.inr ⟨jobs, holding?_filling l jobs, Or.inr (Or.inl ⟨rfl, rfl⟩)⟩
  | ending list =>
      cases hholding
      cases h with
      | endEmpty | handOver => exact Or.inr ⟨[], rfl, Or.inr (Or.inl ⟨rfl, rfl⟩)⟩
  | announcing list =>
      cases hholding
      cases h
      exact Or.inr ⟨[], rfl, Or.inr (Or.inl ⟨rfl, rfl⟩)⟩

theorem Advances.batching (h : Advances s false phase next s₁) (hplain : Plain false (phase :: outer))
    (hbatching : Batching false (phase :: outer))
    (hwork : ∀ l work, workAt l (phase :: outer) = some work →
      work.Fits (s.lists.get l).state ∧ work.Prompt (s.lists.get l).state) :
    Batching false (next.phases outer) ∧ ∀ l jobs, holding? (next.phases outer) = some (l, jobs) →
      Holds i (phase :: outer) l jobs (effectAt s i l (phase :: outer)) := by
  rcases hbatching with hworker | hrest | ⟨list, jobs, hclaiming⟩ | ⟨list, jobs, hholding⟩
  · cases hworker
  · cases hrest
  · cases hclaiming
    cases h with
    | claim _ hlt hfree =>
        refine ⟨batching_of_holding rfl, fun l jobs hl => ?_⟩
        cases hl
        exact Or.inl (by simp [hfree])
    | claimNext => exact ⟨Or.inr (Or.inr (Or.inl ⟨_, jobs, rfl⟩)), nofun⟩
    | claimNone => exact ⟨Or.inr (Or.inl rfl), nofun⟩
  · rcases h.holding (i := i) hplain hholding hwork with hnil | ⟨jobs', hnext, hholds⟩
    · rw [hnil]
      exact ⟨Or.inr (Or.inl rfl), nofun⟩
    · refine ⟨batching_of_holding hnext, fun l held hl => ?_⟩
      rw [hnext] at hl
      cases hl
      exact hholds

structure Batch.Of (b : Batch α) (i : Nat) (jobs : List (Job α)) : Prop where
  holder : b.holder = some i
  asked : (↑b.asked : Multiset (Job α)) = b.added + ↑jobs

/-- Whoever has a list has it for the batch that is there. -/
structure System.Owned (s : System α L) (books : Fin L → Batch α) : Prop where
  batching {i : Nat} {thread : Thread α L} (h : s.threads[i]? = some thread) : Batching thread.isWorker thread.phases
  owner {i : Nat} {thread : Thread α L} {l : Fin L} {jobs : List (Job α)} (h : s.threads[i]? = some thread)
    (hholding : holding? thread.phases = some (l, jobs)) : (books l).Of i jobs
  prompt (l : Fin L) : (s.desk l).AllPrompt
  whole (l : Fin L) (h : (s.lists.get l).state ≠ .filling) : (↑(books l).asked : Multiset (Job α)) = (books l).added

theorem holding?_stirred {phases' : List (Phase α L)} (h : Stirred phases phases') :
    holding? phases' = holding? phases := by
  cases h <;> rfl

theorem Batching.stirred {phases' : List (Phase α L)} (hs : Stirred phases phases') (h : Batching isWorker phases) :
    Batching isWorker phases' := by
  cases hs with
  | same => exact h
  | roused =>
      rcases h with hworker | hrest | ⟨_, _, hclaiming⟩ | ⟨l, jobs, hholding⟩
      · exact Or.inl hworker
      · cases hrest
      · cases hclaiming
      · cases hholding
  | woken list outer => exact batching_of_holding (rfl : holding? (.blocking list :: outer) = some (list, []))

theorem state_of_opened {thread : Nat} (h : s.effect i move l = .opened thread jobs) :
    (s.lists.get l).state = .complete := by
  obtain rfl := advance_of_isOpening (by rw [h]; rfl : (s.effect i move l).isOpening)
  have hcauses := causes_effectAt s i l (s.threads[i]?.elim [] (·.phases))
  rw [System.effect] at h
  rw [h] at hcauses
  generalize s.threads[i]?.elim [] (·.phases) = phases at hcauses
  cases hcauses <;> assumption

theorem counting_of_added {job : Job α} (h : s.effect i move l = .added job) :
    ∃ thread, s.threads[i]? = some thread ∧ workAt l thread.phases = some (.counting job) := by
  by_cases hmove : move = .advance
  · subst hmove
    cases hthread : s.threads[i]? with
    | none => simp [System.effect, hthread] at h
    | some thread =>
        simp only [System.effect, hthread, Option.elim_some] at h
        have hcauses := causes_effectAt s i l thread.phases
        rw [h] at hcauses
        refine ⟨thread, rfl, ?_⟩
        generalize thread.phases = phases at hcauses
        cases hcauses
        simp
  · rcases effect_of_ne_advance hmove with he | ⟨_, _, _, _, he⟩ | ⟨_, _, he⟩ | ⟨_, _, he⟩ <;>
      rw [he] at h <;> cases h

theorem Batch.Of.note {b : Batch α} (h : b.Of i jobs) {effect : Effect α} (hopened : effect.isOpening = false)
    (hadded : ∀ job, effect ≠ .added job) : (b.note effect).Of i jobs := by
  cases effect with
  | opened => cases hopened
  | added job => exact absurd rfl (hadded job)
  | _ => exact ⟨h.holder, h.asked⟩

theorem Batch.Of.holds {b : Batch α} {effect : Effect α} (h : Holds i phases l jobs effect)
    (hb : ∀ jobs', holding? phases = some (l, jobs') → b.Of i jobs') : (b.note effect).Of i jobs := by
  rcases h with rfl | ⟨rfl, hholding⟩ | ⟨job, rfl, hholding⟩
  · exact ⟨rfl, (Multiset.zero_add _).symm⟩
  · exact hb jobs hholding
  · obtain ⟨hholder, hasked⟩ := hb _ hholding
    refine ⟨hholder, ?_⟩
    rw [← Multiset.cons_coe, Multiset.add_cons, ← Multiset.cons_add] at hasked
    exact hasked

theorem System.InOrder.undisturbed (hs : s.InOrder books) (hpermits : (s.desk l).Permits (s.effect i move l))
    (hij : j ≠ i) {thread : Thread α L} (hj : s.threads[j]? = some thread)
    (hholding : holding? thread.phases = some (l, jobs)) :
    (s.effect i move l).isOpening = false ∧ ∀ job, s.effect i move l ≠ .added job := by
  obtain ⟨work, hwork, hclient, hplace⟩ := work_of_holding (hs.plain j thread hj) hholding
  have hmem : work ∈ s.crew l := mem_crew.mpr ⟨j, thread, hj, hwork⟩
  constructor
  · cases heffect : s.effect i move l with
    | opened opener asked =>
        rw [heffect] at hpermits
        have hcomplete := state_of_opened heffect
        rcases hplace with hlingers | hfilling
        · rw [hpermits work hmem] at hlingers
          cases hlingers
        · cases hcomplete.symm.trans (hfilling _ ((hs.sound l).fits work hmem))
    | _ => rfl
  · intro job hadded
    obtain ⟨thread', hi, hcounting⟩ := counting_of_added hadded
    have hcrew := crew_split hj l
    rw [hwork] at hcrew
    have hsound : Desk.Sound ⟨s.lists.get l, work ::ₘ s.others j l⟩ := by
      have hl := hs.sound l
      rwa [System.desk, hcrew] at hl
    cases hsound.not_client hclient (mem_others.mpr ⟨i, thread', hij.symm, hi, hcounting⟩)

theorem not_holding_of_worker (hplain : Plain true phases) : holding? phases ≠ some (l, jobs) := by
  intro hholding
  obtain ⟨work, hwork, hclient, _⟩ := work_of_holding hplain hholding
  rw [isClient_of_plain hplain hwork] at hclient
  cases hclient

theorem isWorker_of_isJob (hplain : Plain isWorker (phase :: outer)) (h : phase.isJob) : isWorker = true := by
  cases hplain with
  | loop | job => rfl
  | call hcall => cases phase <;> first | (cases h; done) | cases hcall
  | _ => cases h

/-- What the moving thread has afterwards, it had before, or has just claimed. -/
theorem System.Owned.mover (hs : s.InOrder books) (hown : s.Owned books) (hrule : s.SharedUse i move)
    (h : s.step? i move = some s') {thread' : Thread α L} (hi' : s'.threads[i]? = some thread') :
    Batching thread'.isWorker thread'.phases ∧ ∀ l jobs, holding? thread'.phases = some (l, jobs) →
      ((books l).note (s.effect i move l)).Of i jobs := by
  have hplain' := (hs.step h (orderly_of_sharedUse hrule)).plain i thread' hi'
  cases hworker : thread'.isWorker with
  | true =>
      rw [hworker] at hplain'
      exact ⟨Or.inl rfl, fun l jobs hholding => absurd hholding (not_holding_of_worker hplain')⟩
  | false =>
      obtain ⟨thread, hi, hsame, _⟩ := thread_of_step h hi'
      rw [hworker] at hsame
      have hplain := hs.plain i thread hi
      cases move with
      | advance =>
          obtain ⟨phase, outer, next, s₁, phases, hphases, hadvance, _, rfl⟩ := thread_of_advance h hi hi'
          have hbatching := hown.batching hi
          rw [hphases, hsame] at hplain hbatching
          rw [hsame] at hadvance
          have heffect (l : Fin L) : s.effect i .advance l = effectAt s i l (phase :: outer) := by
            simp only [System.effect, hi, Option.elim_some, hphases]
          have hwork (l : Fin L) (work : Work α) (hwork : workAt l (phase :: outer) = some work) :
              work.Fits (s.lists.get l).state ∧ work.Prompt (s.lists.get l).state := by
            have hmem : work ∈ s.crew l := mem_crew.mpr ⟨i, thread, hi, by rw [hphases, hwork]⟩
            exact ⟨(hs.sound l).fits work hmem, hown.prompt l work hmem⟩
          obtain ⟨hnext, hholds⟩ := hadvance.batching hplain hbatching hwork
          rw [place_phases]
          refine ⟨hnext, fun l jobs hholding => ?_⟩
          rw [heffect l]
          exact .holds (hholds l jobs hholding) fun jobs' hbefore => hown.owner hi (by rw [hphases, hbefore])
      | use operation =>
          obtain ⟨thread₀, hi₀, rfl, hrest | ⟨_, _, _, _, hrunning⟩⟩ := step_use h
          · rw [threads_setPhases, Array.getElem?_modify, if_pos rfl, hi₀] at hi'
            cases hi'
            cases operation with
            | runBatch jobs =>
                rw [hrest.1]
                refine ⟨Or.inr (Or.inr (Or.inl ⟨0, jobs, rfl⟩)), fun l held hholding => ?_⟩
                cases hholding
            | _ => cases hrule.1
          · obtain rfl := Option.some.inj (hi₀.symm.trans hi)
            rw [hrunning, hsame] at hplain
            cases isWorker_of_isJob hplain rfl
      | endJob panicked =>
          obtain ⟨thread₀, list, job, uses, outer, hi₀, hphases, _⟩ := step_endJob h
          obtain rfl := Option.some.inj (hi₀.symm.trans hi)
          rw [hphases, hsame] at hplain
          cases isWorker_of_isJob hplain rfl
      | endCallback panicked =>
          obtain ⟨thread₀, list, job, outer, hi₀, hphases, _⟩ := step_endCallback h
          obtain rfl := Option.some.inj (hi₀.symm.trans hi)
          rw [hphases, hsame] at hplain
          cases isWorker_of_isJob hplain rfl

theorem holding?_of_ending (hplain : Plain isWorker phases) (hbatching : Batching isWorker phases)
    (h : workAt l phases = some .ending) : holding? phases = some (l, []) := by
  have h := workOf?_of_workAt h
  cases hplain with
  | @loop phase hloop | @job phase hloop => cases phase <;> first | (cases hloop; done) | cases h
  | rest => cases h
  | @call phase hcall =>
      -- a thread in nothing but a batch does not end one by itself
      rcases hbatching with hworker | hrest | ⟨_, _, hclaiming⟩ | ⟨list, jobs, hholding⟩
      · cases hworker
      · cases hrest
      · cases hclaiming
      · cases phase <;> first | (cases hholding; done) | cases h
  | ending list => cases h; rfl
  | _ => cases h

/-- When a list comes to be no longer filled, all jobs have been added that it was claimed for. -/
theorem System.Owned.whole_step (hs : s.InOrder books) (hown : s.Owned books)
    (hstep : Desk.Step (s.desk l) (s.effect i move l) (s'.desk l)) (hl' : (s'.lists.get l).state ≠ .filling) :
    (↑((books l).note (s.effect i move l)).asked : Multiset (Job α)) =
      ((books l).note (s.effect i move l)).added := by
  by_cases hl : (s.lists.get l).state = .filling
  · obtain ⟨heffect, hending | hhandingBack | hcompleting⟩ := hstep.ends hl hl'
    · obtain ⟨j, thread, hj, hwork⟩ := mem_crew.mp hending
      have hholding := holding?_of_ending (hs.plain j thread hj) (hown.batching hj) hwork
      have hasked := (hown.owner hj hholding).asked
      rw [heffect]
      exact hasked.trans (Multiset.add_zero _)
    · exact (hown.prompt l _ hhandingBack).elim
    · cases hl.symm.trans ((hs.sound l).fits _ hcompleting)
  · have hasked := hown.whole l hl
    cases heffect : s.effect i move l with
    | opened thread jobs =>
        rw [heffect] at hstep
        exact absurd hstep.filling_of_opened hl'
    | added job =>
        obtain ⟨thread, hi, hcounting⟩ := counting_of_added heffect
        exact absurd ((hs.sound l).fits _ (mem_crew.mpr ⟨i, thread, hi, hcounting⟩)) hl
    | _ => exact hasked

theorem System.Owned.step (hs : s.InOrder books) (hown : s.Owned books) (hrule : s.SharedUse i move)
    (h : s.step? i move = some s') : s'.Owned fun l => (books l).note (s.effect i move l) := by
  have horderly := orderly_of_sharedUse hrule
  have hdesk := System.desk_step hs.plain hs.sound h horderly
  constructor
  · intro j thread' hj
    by_cases hij : j = i
    · subst hij
      exact (hown.mover hs hrule h hj).1
    · obtain ⟨thread, hthread, hworker, hstirred⟩ := thread_of_step h hj
      rw [← hworker]
      exact (hown.batching hthread).stirred (hstirred hij)
  · intro j thread' l jobs hj hholding
    by_cases hij : j = i
    · subst hij
      exact (hown.mover hs hrule h hj).2 l jobs hholding
    · obtain ⟨thread, hthread, _, hstirred⟩ := thread_of_step h hj
      rw [holding?_stirred (hstirred hij)] at hholding
      obtain ⟨hopened, hadded⟩ := hs.undisturbed (horderly.permits l) hij hthread hholding
      exact (hown.owner hthread hholding).note hopened hadded
  · intro l
    exact (hdesk l).prompt (hs.sound l) (horderly.permits l) (not_arrived hrule.1 l) (hown.prompt l)
  · intro l hl'
    exact hown.whole_step hs (hdesk l) hl'

theorem owned_ofThreads (workers clients : Nat) :
    (System.ofThreads workers clients : System α L).Owned fun _ => {} where
  batching h := by
    rcases phases_ofThreads h with ⟨_, hworker, _⟩ | ⟨_, _, _, hphases⟩
    · exact Or.inl hworker
    · exact Or.inr (Or.inl hphases)
  owner h hholding := by
    rcases phases_ofThreads h with ⟨_, _, hphases⟩ | ⟨_, _, _, hphases⟩ <;>
      rw [hphases] at hholding <;> cases hholding
  prompt l := by
    rw [desk_ofThreads]
    exact nofun
  whole _ _ := rfl

theorem owned_of_sharedUse {workers clients : Nat} (hrun : (System.ofThreads workers clients).run? moves = some s)
    (hobeys : (System.ofThreads workers clients).Obeys System.SharedUse moves) :
    (s.InOrder fun l => (System.ofThreads workers clients).batch l moves) ∧
      s.Owned fun l => (System.ofThreads workers clients).batch l moves :=
  run_keeps (P := fun s books => s.InOrder books ∧ s.Owned books)
    (fun _ _ _ _ _ hs hrule h => ⟨hs.1.step h (orderly_of_sharedUse hrule), hs.2.step hs.1 hrule h⟩)
    ⟨inOrder_ofThreads workers clients, owned_ofThreads workers clients⟩ hrun hobeys

instance (s : System α L) (i : Nat) (move : Move α L) : Decidable (s.RunsBatches i move) :=
  match move with
  | .use operation => match operation with
      | .runBatch _ => inferInstanceAs (Decidable (s.threads[i]?.elim [] (·.phases) = []))
      | .claim | .begin _ | .add _ _ | .finish _ | .wait _ | .completeFrame | .signal | .drop =>
          inferInstanceAs (Decidable False)
  | .advance | .endJob _ | .endCallback _ => inferInstanceAs (Decidable True)

instance (s : System α L) (i : Nat) (move : Move α L) : Decidable (s.OpensDeserted i move) :=
  inferInstanceAs (Decidable (∀ l, (s.effect i move l).isOpening → ∀ work ∈ s.crew l, work.lingers = false))

instance (s : System α L) (i : Nat) (move : Move α L) : Decidable (s.SharedUse i move) :=
  inferInstanceAs (Decidable (_ ∧ _))

def sharedMoves : List (Nat × Move Nat 1) :=
  (1, .use (.runBatch [⟨7, false⟩])) :: goesOn 1 7 ++ (2, .use (.runBatch [])) :: goesOn 2 2 ++ goesOn 1 2 ++
    goesOn 0 5 ++ (0, .endJob true) :: goesOn 0 3 ++ goesOn 1 1

def sharedSystem (first second : List (Phase Nat 1)) (outcome : Option (Outcome 1)) : System Nat 1 where
  epoch := 1
  lists := #v[{ panicked := 1 }]
  threads := #[{ isWorker := true, phases := [.checking] },
    { isWorker := false, phases := first, outcome := outcome },
    { isWorker := false, phases := second, outcome := some (.done (.error (.noFreeJobLists 1))) }]
  history := [.ended soleList ⟨7, false⟩ true, .started soleList ⟨7, false⟩]

/-- Thread `i` has a list for its batch, from its claim until it has the result. -/
def System.Has (s : System α L) (i : Nat) (l : Fin L) : Prop :=
  ∃ (thread : Thread α L) (jobs : List (Job α)), s.threads[i]? = some thread ∧ holding? thread.phases = some (l, jobs)

/-- Clients that run batches never have the same list at the same time; and a list is claimed only once the batch
for which it was claimed before is complete: all of its jobs were added, and have run. -/
theorem claims_of_sharedUse {workers clients : Nat} (hrun : (System.ofThreads workers clients).run? moves = some s)
    (hobeys : (System.ofThreads workers clients).Obeys System.SharedUse moves) (l : Fin L) :
    (∀ i j, s.Has i l → s.Has j l → i = j) ∧
      ∀ i move, (s.effect i move l).isOpening →
        (↑((System.ofThreads workers clients).batch l moves).asked : Multiset (Job α)) =
          ((System.ofThreads workers clients).batch l moves).added ∧
        ((System.ofThreads workers clients).batch l moves).Finished := by
  obtain ⟨hs, howned⟩ := owned_of_sharedUse hrun hobeys
  constructor
  · rintro i j ⟨thread, jobs, hi, hholding⟩ ⟨thread', jobs', hj, hholding'⟩
    have hmine := (howned.owner hi hholding).holder
    have hother := (howned.owner hj hholding').holder
    exact Option.some.inj (hmine.symm.trans hother)
  · intro i move hopening
    have hcomplete : (s.lists.get l).state = .complete := by
      cases heffect : s.effect i move l with
      | opened thread jobs => exact state_of_opened heffect
      | _ => rw [heffect] at hopening; cases hopening
    have hended : (s.lists.get l).state ≠ .filling := by rw [hcomplete]; nofun
    exact ⟨howned.whole l hended, ((hs.keeps l).finished (hs.sound l) hcomplete).1⟩

def reclaimMoves : List (Nat × Move Nat 1) := sharedMoves ++ goesOn 1 1 ++ [(2, .use (.runBatch []))]

theorem claims_of_sharedUse_reclaimed :
    ((System.ofThreads 1 2 : System Nat 1).batch soleList reclaimMoves).asked = [⟨7, false⟩] ∧
      ((System.ofThreads 1 2 : System Nat 1).batch soleList reclaimMoves).Finished := by
  have hrun : (System.ofThreads 1 2).run? reclaimMoves =
      some (sharedSystem [] [.claiming 0, .batchClaiming []] (some (.done (.error (.panicked 0 1))))) := by
    with_unfolding_all rfl
  have hobeys : (System.ofThreads 1 2).Obeys System.SharedUse reclaimMoves := by decide +kernel
  obtain ⟨_, hfinished⟩ := (claims_of_sharedUse hrun hobeys soleList).2 2 .advance rfl
  exact ⟨by with_unfolding_all rfl, hfinished⟩

/-- Client 2 claims the list when the batch of client 1 there is complete; client 1, which is still to wait for it,
hands the claimed list back as if it were its own; then client 3 claims it. -/
def doubleClaimMoves : List (Nat × Move Nat 1) :=
  (1, .use (.runBatch [])) :: goesOn 1 4 ++ (2, .use (.runBatch [⟨2, false⟩])) :: goesOn 2 1 ++ goesOn 1 3 ++
    (3, .use (.runBatch [⟨3, false⟩])) :: goesOn 3 1

def doublyClaimedSystem : System Nat 1 where
  lists := #v[{ state := .filling }]
  threads := #[{ isWorker := true, phases := [.checking] }, { isWorker := false, outcome := some (.done (.ok ())) },
    { isWorker := false, phases := [.resetting soleList, .batchClaiming [⟨2, false⟩]] },
    { isWorker := false, phases := [.resetting soleList, .batchClaiming [⟨3, false⟩]] }]

/-- Clients that only run batches can come to have the same list. -/
theorem list_claimed_twice : (System.ofThreads 1 3).Obeys System.RunsBatches doubleClaimMoves ∧
    (System.ofThreads 1 3).run? doubleClaimMoves = some doublyClaimedSystem ∧
    doublyClaimedSystem.Has 2 soleList ∧ doublyClaimedSystem.Has 3 soleList :=
  ⟨by decide +kernel, by with_unfolding_all rfl, ⟨_, _, rfl, rfl⟩, ⟨_, _, rfl, rfl⟩⟩

/-- A call returns when it has found no list, or when it has waited for its batch. -/
theorem Advances.returns (h : Advances s false phase next s₁) (hplain : Plain false (phase :: outer))
    (hbatching : Batching false (phase :: outer)) (hreturned : next.phases outer = [])
    (hfits : ∀ l work, workAt l (phase :: outer) = some work → work.Fits (s.lists.get l).state) :
    (∃ list jobs, phase = .claiming list ∧ outer = [.batchClaiming jobs] ∧
      next = .reply (.done (.error (.noFreeJobLists L)))) ∨ ∃ l, phase = .judging l ∧ outer = [] := by
  cases hplain with
  | call hcall =>
      rcases hbatching with hworker | hrest | ⟨_, _, hclaiming⟩ | ⟨l, jobs, hholding⟩
      · cases hworker
      · cases hrest
      · cases hclaiming
      cases phase
      case judging list => exact Or.inr ⟨list, rfl, rfl⟩
      case inspecting | blocking => cases h <;> cases hreturned
      case blocked => cases h
      all_goals cases hholding
  | claiming list jobs =>
      cases h with
      | claimNone => exact Or.inl ⟨list, jobs, rfl, rfl, rfl⟩
      | claim | claimNext => cases hreturned
  | beginning list jobs =>
      have hfilling : (s.lists.get list).state = .filling := hfits list .beginning (by simp)
      cases h with
      | busy _ h => cases h.symm.trans hfilling
      | begin =>
          have hholding := holding?_filling list jobs
          rw [Next.phases] at hreturned
          rw [hreturned] at hholding
          cases hholding
  | pushing list job jobs =>
      have hholding := holding?_filling list jobs
      cases h
      rw [Next.phases] at hreturned
      rw [hreturned] at hholding
      cases hholding
  | resetting | counting | announcing => cases h; cases hreturned
  | ending => cases h <;> cases hreturned

/-- A call that runs a batch either finds no list, or returns once all of its jobs have run, with the number of those
that panicked. -/
theorem returns_of_sharedUse {workers clients : Nat} (hrun : (System.ofThreads workers clients).run? moves = some s)
    (hobeys : (System.ofThreads workers clients).Obeys System.SharedUse moves) {i : Nat} {thread thread' : Thread α L}
    (hi : s.threads[i]? = some thread) (hclient : thread.isWorker = false) (h : s.step? i .advance = some s')
    (hi' : s'.threads[i]? = some thread') (hreturned : thread'.phases = []) :
    ((∀ l, ¬s.Has i l) ∧ thread'.outcome = some (.done (.error (.noFreeJobLists L)))) ∨
      ∃ l, s.Has i l ∧ ((System.ofThreads workers clients).batch l moves).Of i [] ∧
        ((System.ofThreads workers clients).batch l moves).Finished ∧
        thread'.outcome = some (.done (verdict l ((System.ofThreads workers clients).batch l moves).panics)) := by
  obtain ⟨hs, howned⟩ := owned_of_sharedUse hrun hobeys
  obtain ⟨phase, outer, next, s₁, _, hphases, hadvance, _, hthread'⟩ := thread_of_advance h hi hi'
  have hplain := hs.plain i thread hi
  have hbatching := howned.batching hi
  rw [hclient, hphases] at hplain hbatching
  rw [hclient] at hadvance
  have hfits (l : Fin L) (work : Work α) (hwork : workAt l (phase :: outer) = some work) :
      work.Fits (s.lists.get l).state :=
    fits_of_work hs.sound hi (by rw [hphases, hwork])
  have hnext : next.phases outer = [] := by rwa [hthread', place_phases] at hreturned
  rcases hadvance.returns hplain hbatching hnext hfits with ⟨list, jobs, rfl, rfl, rfl⟩ | ⟨l, rfl, rfl⟩
  · refine Or.inl ⟨?_, by rw [hthread']; rfl⟩
    rintro l ⟨other, held, hother, hholding⟩
    rw [Option.some.inj (hother.symm.trans hi), hphases] at hholding
    cases hholding
  · have hhas : holding? thread.phases = some (l, []) := by rw [hphases]; rfl
    have hcomplete : (s.lists.get l).state = .complete := hfits l .judging (by simp)
    have hended : (s.lists.get l).state ≠ .filling := by rw [hcomplete]; nofun
    obtain ⟨hfinished, hpanicked⟩ := (hs.keeps l).finished (hs.sound l) hcomplete
    have hpanicked : (s.lists.get l).panicked = _ := hpanicked
    obtain ⟨_, houtcome, _⟩ := hs.wait_returns hi hphases rfl hended h hi' hreturned
    rw [hpanicked] at houtcome
    exact Or.inr ⟨l, ⟨thread, [], hi, hhas⟩, howned.owner hi hhas, hfinished, houtcome⟩

theorem returns_of_sharedUse_panicked :
    ((System.ofThreads 1 2 : System Nat 1).batch soleList sharedMoves).Of 1 [] ∧
      ((System.ofThreads 1 2 : System Nat 1).batch soleList sharedMoves).Finished ∧
      ((System.ofThreads 1 2 : System Nat 1).batch soleList sharedMoves).panics = 1 := by
  have hrun : (System.ofThreads 1 2).run? sharedMoves = some (sharedSystem [.judging soleList] [] none) := by
    with_unfolding_all rfl
  have hobeys : (System.ofThreads 1 2).Obeys System.SharedUse sharedMoves := by decide +kernel
  have hstep : (sharedSystem [.judging soleList] [] none).step? 1 .advance =
      some (sharedSystem [] [] (some (.done (.error (.panicked 0 1))))) := by
    with_unfolding_all rfl
  rcases returns_of_sharedUse hrun hobeys rfl rfl hstep rfl rfl with ⟨hnone, _⟩ | ⟨l, _, hof, hfinished, _⟩
  · exact absurd ⟨_, [], rfl, rfl⟩ (hnone soleList)
  · obtain rfl : l = soleList := Subsingleton.elim l soleList
    exact ⟨hof, hfinished, by with_unfolding_all rfl⟩

def takenOverMoves : List (Nat × Move Nat 1) :=
  (1, .use (.runBatch [])) :: goesOn 1 4 ++ (2, .use (.runBatch [⟨2, false⟩])) :: goesOn 2 4 ++ goesOn 1 2

/-- A call that has run its batch can be told that the batch was not ended. -/
theorem runBatch_told_notEnded : (System.ofThreads 1 2).Obeys System.RunsBatches takenOverMoves ∧
    ((System.ofThreads 1 2).run? takenOverMoves).map (fun s => s.threads[1]?.map fun thread =>
      (thread.phases, thread.outcome)) = some (some ([], some (.done (.error (.notEnded 0))))) :=
  ⟨by decide +kernel, by with_unfolding_all rfl⟩

end FrameEngine.Jobs
