import FrameEngine.Jobs.Pool
import FrameEngine.Proofs.Jobs.FrameEnd
import FrameEngine.Proofs.Jobs.Ownership

namespace FrameEngine.Jobs

variable {α : Type} {L : Nat}

namespace Pool

/-- Batches of so many jobs run to their ends. -/
def RunsToEnd (pool : Pool) (jobs : Nat) : Prop := ∀ course ∈ pool.courses, ∀ i < jobs, i ∈ course

section Batches

variable {β : Type} {pool pool' : Pool} {jobs ended : List β} {cause : JobError}

theorem forBatch_of_error (h : pool.runBatch jobs = .error cause) : pool.forBatch = .error cause := by
  rw [runBatch] at h
  cases hlist : pool.forBatch with
  | error other =>
      rw [hlist] at h
      cases h
      rfl
  | ok _ =>
      rw [hlist] at h
      cases hcourses : pool.courses <;> simp only [hcourses] at h <;> cases h

/-- A batch that runs to its end is answered when each of its jobs has ended. -/
theorem runBatch_of_runsToEnd (h : pool.RunsToEnd jobs.length) (hrun : pool.runBatch jobs = .ok (ended, pool')) :
    (∀ job ∈ jobs, job ∈ ended) ∧ pool'.RunsToEnd jobs.length := by
  rw [runBatch] at hrun
  cases hlist : pool.forBatch with
  | error other =>
      rw [hlist] at hrun
      cases hrun
  | ok _ =>
      rw [hlist] at hrun
      cases hcourses : pool.courses with
      | nil =>
          simp only [hcourses] at hrun
          cases hrun
          exact ⟨fun job hjob => hjob, h⟩
      | cons course courses =>
          simp only [hcourses] at hrun
          cases hrun
          rw [RunsToEnd, hcourses] at h
          refine ⟨fun job hjob => ?_, fun course hcourse => h course (List.mem_cons_of_mem _ hcourse)⟩
          obtain ⟨i, hi, rfl⟩ := List.getElem_of_mem hjob
          have hended := h course List.mem_cons_self i hi
          exact List.mem_filterMap.mpr ⟨i, hended, List.getElem?_eq_getElem hi⟩

theorem exists_runBatch (jobs : List β) (hlist : pool.forBatch = .ok ()) :
    ∃ ended pool', pool.runBatch jobs = .ok (ended, pool') ∧ pool'.forBatch = .ok () := by
  rw [runBatch, hlist]
  cases pool.courses with
  | nil => exact ⟨jobs, pool, rfl, hlist⟩
  | cons course courses =>
      refine ⟨_, _, rfl, ?_⟩
      rw [forBatch, claim] at hlist ⊢
      dsimp only
      cases hfree : pool.held.findIdx? fun held => !held with
      | none =>
          rw [hfree] at hlist
          cases hlist
      | some list => rfl

end Batches

end Pool

/-- What a client may ask for if it sees the lists as a pool: a list, that a list it has be handed back, and a batch. -/
def Operation.OfPool (s : System α L) : Operation α L → Prop
  | .claim | .runBatch _ => True
  | .wait list => (s.lists.get list).state = .filling
  | _ => False

def System.AsksPool (s : System α L) (i : Nat) : Move α L → Prop
  | .use operation => s.threads[i]?.elim [] (·.phases) = [] ∧ operation.OfPool s
  | _ => True

def System.PoolUse (s : System α L) (i : Nat) (move : Move α L) : Prop := s.AsksPool i move ∧ s.OpensQuietly i move

def System.pool (s : System α L) (workers : Nat) : Pool where
  workers := workers
  held := s.lists.toList.map fun list => list.state ≠ .complete

def System.FirstFree (s : System α L) (l : Fin L) : Prop :=
  (s.lists.get l).state = .complete ∧ ∀ l' < l, (s.lists.get l').state ≠ .complete

def System.Calm (s : System α L) : Prop :=
  ∀ l, (s.lists.get l).state ≠ .draining ∧ (s.lists.get l).outstanding = 0

def JobEvent.ended? : JobEvent α L → Option (Job α × Bool)
  | .ended _ job panicked => some (job, panicked)
  | _ => none

def Effect.ended? : Effect α → Option (Job α × Bool)
  | .ended job panicked => some (job, panicked)
  | _ => none

def System.endedSince (s start : System α L) : List (Job α × Bool) :=
  (s.history.take (s.history.length - start.history.length)).reverse.filterMap JobEvent.ended?

/-- What a client asked for, what it was told, and the jobs that ended in between. -/
structure Exchange (α : Type) (L : Nat) where
  asked : Operation α L
  told : Outcome L
  ended : List (Job α × Bool)

/-- What a client is told by a pool. A batch is answered once each of its jobs has ended. -/
inductive Pool.Tells (pool : Pool) : Exchange α L → Pool → Prop
  | claimed {list : Fin L} {pool' : Pool} (h : pool.claim = .ok (list.val, pool')) :
      Tells pool ⟨.claim, .claimed list, []⟩ pool'
  | noList {asked : Operation α L} {cause : JobError} (hasked : asked = .claim ∨ ∃ jobs, asked = .runBatch jobs)
      (h : pool.claim = .error cause) : Tells pool ⟨asked, .done (.error cause), []⟩ pool
  | released (list : Fin L) : Tells pool ⟨.wait list, .done (.ok ()), []⟩ (pool.release list.val)
  | ran {jobs : List (Job α)} {ended : List (Job α × Bool)} {list : Fin L} {pool' : Pool} {panics : Nat}
      (h : pool.claim = .ok (list.val, pool')) (hended : (ended.map Prod.fst).Perm jobs)
      (hpanics : ended.countP Prod.snd ≤ panics) :
      Tells pool ⟨.runBatch jobs, .done (verdict list panics), ended⟩ pool

variable {s s' s₁ start : System α L} {i client workers : Nat} {l : Fin L} {move : Move α L} {phase : Phase α L}
  {outer : List (Phase α L)} {next : Next α L} {books : Fin L → Batch α} {b : Batch α} {effect : Effect α}
  {asked : Operation α L} {mine : Option (Fin L)}

theorem soleUse_of_poolUse (h : s.PoolUse i move) : s.SoleUse i move := by
  refine ⟨?_, h.2⟩
  have hasks := h.1
  cases move with
  | use operation =>
      refine ⟨hasks.1, ?_⟩
      have hpool := hasks.2
      cases operation <;> trivial
  | advance | endJob | endCallback => trivial

section Pools

theorem getElem?_held (s : System α L) (workers : Nat) (l : Fin L) :
    (s.pool workers).held[l.val]? = some (decide ((s.lists.get l).state ≠ .complete)) := by
  rw [System.pool, List.getElem?_map, Vector.getElem?_toList, Vector.getElem?_eq_getElem l.isLt]
  rfl

theorem length_held (s : System α L) (workers : Nat) : (s.pool workers).held.length = L := by
  rw [System.pool, List.length_map, Vector.length_toList]

theorem pool_eq {held : List Bool} (hlength : held.length = L)
    (h : ∀ l : Fin L, held[l.val]? = some (decide ((s.lists.get l).state ≠ .complete))) :
    s.pool workers = { workers := workers, held := held } := by
  have hheld : (s.pool workers).held = held := by
    apply List.ext_getElem?
    intro n
    by_cases hn : n < L
    · rw [getElem?_held s workers ⟨n, hn⟩, h ⟨n, hn⟩]
    · rw [List.getElem?_eq_none (by rw [length_held]; omega), List.getElem?_eq_none (by omega)]
  rw [← hheld]
  rfl

theorem claim_of_firstFree (h : s.FirstFree l) : (s.pool workers).claim =
    .ok (l.val, { s.pool workers with held := (s.pool workers).held.set l.val true }) := by
  have hfound : (s.pool workers).held.findIdx? (fun held => !held) = some l.val := by
    rw [List.findIdx?_eq_some_iff_getElem]
    have hlt : l.val < (s.pool workers).held.length := by
      rw [length_held]
      exact l.isLt
    have hat (l' : Fin L) (hlt' : l'.val < (s.pool workers).held.length) :
        (s.pool workers).held[l'.val] = decide ((s.lists.get l').state ≠ .complete) :=
      Option.some.inj ((List.getElem?_eq_getElem hlt').symm.trans (getElem?_held s workers l'))
    refine ⟨hlt, ?_, fun n hn => ?_⟩
    · rw [hat l hlt, h.1]
      rfl
    · have hn' : n < L := Nat.lt_trans hn l.isLt
      rw [hat ⟨n, hn'⟩ (Nat.lt_trans hn hlt), decide_eq_true (h.2 ⟨n, hn'⟩ hn)]
      exact Bool.false_ne_true
  rw [Pool.claim, hfound]

theorem claim_of_noneFree (h : ∀ l, (s.lists.get l).state ≠ .complete) :
    (s.pool workers).claim = .error (.noFreeJobLists L) := by
  have hnone : (s.pool workers).held.findIdx? (fun held => !held) = none := by
    rw [List.findIdx?_eq_none_iff]
    intro held hheld
    obtain ⟨n, hn, rfl⟩ := List.getElem_of_mem hheld
    have hn' : n < L := by rwa [length_held] at hn
    have hat := (List.getElem?_eq_getElem hn).symm.trans (getElem?_held s workers ⟨n, hn'⟩)
    rw [Option.some.inj hat, decide_eq_true (h _)]
    rfl
  rw [Pool.claim, hnone, Pool.lists, length_held]

/-- What becomes of the pool when one list is claimed or handed back. -/
theorem pool_of_change {held : Bool} (hothers : ∀ l', l' ≠ l → s'.lists.get l' = s.lists.get l')
    (hl : held = decide ((s'.lists.get l).state ≠ .complete)) :
    s'.pool workers = { s.pool workers with held := (s.pool workers).held.set l.val held } := by
  refine pool_eq (by rw [List.length_set, length_held]) fun l' => ?_
  by_cases hl' : l = l'
  · subst hl'
    rw [List.getElem?_set_self (by rw [length_held]; exact l.isLt), hl]
  · rw [List.getElem?_set_ne (fun h => hl' (Fin.ext h)), getElem?_held, hothers l' (Ne.symm hl')]

theorem pool_of_lists (h : ∀ l, (s'.lists.get l).state = (s.lists.get l).state) : s'.pool workers = s.pool workers :=
  pool_eq (length_held s workers) fun l => (getElem?_held s workers l).trans (by rw [h])

end Pools

section Endings

theorem ended_note (h : effect.isOpening = false) :
    (b.note effect).ended = (effect.ended?.toList : Multiset (Job α × Bool)) + b.ended := by
  cases effect with
  | opened => cases h
  | ended => exact (Multiset.singleton_add _ _).symm
  | _ => exact (Multiset.zero_add _).symm

theorem not_ended_of_ne_endJob (h : ∀ panicked, move ≠ .endJob panicked) (l : Fin L) :
    (s.effect i move l).ended? = none := by
  cases move with
  | advance =>
      rw [System.effect]
      generalize s.threads[i]?.elim [] (·.phases) = phases
      have hcauses := causes_effectAt s i l phases
      generalize effectAt s i l phases = effect at hcauses ⊢
      cases hcauses <;> rfl
  | use operation =>
      rw [System.effect]
      cases workAt l operation.phases <;> rfl
  | endJob panicked => exact absurd rfl (h panicked)
  | endCallback panicked =>
      rw [System.effect]
      split
      · split <;> rfl
      · rfl

/-- What a move adds to the history: the end of a job is an effect on the list where it ran, and is the only end that
comes with a move. -/
theorem history_of_step (h : s.step? i move = some s') : ∃ recent, s'.history = recent ++ s.history ∧
    ((recent.filterMap JobEvent.ended? = [] ∧ ∀ l, (s.effect i move l).ended? = none) ∨
      ∃ l thread job panicked, recent.filterMap JobEvent.ended? = [(job, panicked)] ∧ s.threads[i]? = some thread ∧
        workAt l thread.phases = some (.running job) ∧ s.effect i move l = .ended job panicked) := by
  cases move with
  | advance =>
      obtain ⟨thread, phase, outer, next, s₁, hi, hphases, hadvance, rfl⟩ := step_advance h
      have hquiet : ∀ l, (s.effect i .advance l).ended? = none := not_ended_of_ne_endJob (by simp)
      rw [settle_eq]
      cases hadvance with
      | pop | take => exact ⟨[_], rfl, .inl ⟨rfl, hquiet⟩⟩
      | _ => exact ⟨[], rfl, .inl ⟨rfl, hquiet⟩⟩
  | use operation =>
      obtain ⟨_, _, rfl, _⟩ := step_use h
      exact ⟨[], rfl, .inl ⟨rfl, not_ended_of_ne_endJob (by simp)⟩⟩
  | endJob panicked =>
      obtain ⟨thread, list, job, uses, outer, hi, hphases, rfl⟩ := step_endJob h
      rw [settle_eq]
      refine ⟨[.ended list job panicked], rfl, .inr ⟨list, thread, job, panicked, rfl, hi, ?_, ?_⟩⟩
      · simp [hphases]
      · simp only [System.effect, hi, Option.elim_some, hphases, if_true]
  | endCallback panicked =>
      obtain ⟨thread, list, job, outer, hi, hphases, rfl⟩ := step_endCallback h
      rw [settle_eq]
      exact ⟨[.calledBack list job panicked], rfl, .inl ⟨rfl, not_ended_of_ne_endJob (by simp)⟩⟩

end Endings

inductive Stage (start s : System α L) (client : Nat) (books : Fin L → Batch α) :
    Operation α L → Option (Fin L) → List (Phase α L) → Prop
  | scanning {asked : Operation α L} {outer : List (Phase α L)} {list : Nat}
      (houter : asked.phases = .claiming 0 :: outer)
      (hheld : ∀ l : Fin L, l.val < list → (start.lists.get l).state ≠ .complete) :
      Stage start s client books asked none (.claiming list :: outer)
  | claimed {l : Fin L} (hstate : (s.lists.get l).state = .filling) (hjobs : (s.lists.get l).outstanding = 0) :
      Stage start s client books .claim (some l) [.resetting l]
  | releasing {phase : Phase α L} {l : Fin L} (hwaits : phase.WaitsFor l)
      (hstate : (start.lists.get l).state = .filling) :
      Stage start s client books (.wait l) none [phase]
  | batch {jobs rest : List (Job α)} {l : Fin L} {phases : List (Phase α L)}
      (hholding : holding? phases = some (l, rest)) (hof : (books l).Of client rest)
      (hasked : (books l).asked = jobs) (hprompt : (s.desk l).AllPrompt) :
      Stage start s client books (.runBatch jobs) (some l) phases

/-- What a client asked for at `start` is under way. Only the list that it has is not as it was then, and only jobs of
its batch have ended. -/
structure Errand (start s : System α L) (client : Nat) (books : Fin L → Batch α) (asked : Operation α L)
    (mine : Option (Fin L)) : Prop where
  calm : start.Calm
  kept : ∀ l, mine ≠ some l → s.lists.get l = start.lists.get l
  free : ∀ l, mine = some l → start.FirstFree l
  ended : ∃ recent, s.history = recent ++ start.history ∧
    (recent.filterMap JobEvent.ended? : Multiset (Job α × Bool)) = mine.elim 0 fun l => (books l).ended
  stage : ∃ thread, s.threads[client]? = some thread ∧ thread.isWorker = false ∧
    Stage start s client books asked mine thread.phases

section Steps

variable {thread : Thread α L} {phases phases' : List (Phase α L)}

theorem System.InOrder.inFrame (hs : s.InOrder books) (honly : s.OnlyClient client) : s.InFrame client books :=
  ⟨fun i thread hi => .plain (hs.plain i thread hi), honly, hs.sound, hs.keeps⟩

theorem frameUse_of_soleUse (h : s.SoleUse i move) : s.FrameUse i move := by
  cases move with
  | use operation =>
      cases operation with
      | completeFrame => exact h.1.2.elim
      | _ => exact h
  | advance | endJob | endCallback => exact h

/-- A worker opens no list and adds no job. -/
theorem effect_of_worker (hs : s.AllPlain) (hi : s.threads[i]? = some thread) (hworker : thread.isWorker = true)
    (l : Fin L) : (s.effect i move l).isOpening = false ∧ ∀ job, s.effect i move l ≠ .added job := by
  constructor
  · cases hopening : (s.effect i move l).isOpening with
    | false => rfl
    | true =>
        obtain ⟨thread', hi', hclient, _⟩ := opener hs hopening
        obtain rfl := Option.some.inj (hi'.symm.trans hi)
        cases hworker.symm.trans hclient
  · intro job hadded
    obtain ⟨thread', hi', hcounting⟩ := counting_of_added hadded
    obtain rfl := Option.some.inj (hi'.symm.trans hi)
    have hclient := isClient_of_plain (hs i thread' hi) hcounting
    rw [hworker] at hclient
    cases hclient

theorem Errand.ended_step (he : Errand start s client books asked mine) (hsound : ∀ l, (s.desk l).Sound)
    (h : s.step? i move = some s') (hopens : ∀ l, mine = some l → (s.effect i move l).isOpening = false) :
    ∃ recent, s'.history = recent ++ start.history ∧
      (recent.filterMap JobEvent.ended? : Multiset (Job α × Bool)) =
        mine.elim 0 fun l => ((books l).note (s.effect i move l)).ended := by
  obtain ⟨earlier, hearlier, hsame⟩ := he.ended
  obtain ⟨recent, hrecent, hcase⟩ := history_of_step h
  refine ⟨recent ++ earlier, by rw [hrecent, hearlier, List.append_assoc], ?_⟩
  rw [List.filterMap_append, ← Multiset.coe_add, hsame]
  rcases hcase with ⟨hnone, hquiet⟩ | ⟨l, thread, job, panicked, hone, hi, hrunning, heffect⟩
  · rw [hnone, Multiset.coe_nil, zero_add]
    cases mine with
    | none => rfl
    | some l =>
        rw [Option.elim_some, Option.elim_some, ended_note (hopens l rfl), hquiet l]
        exact (Multiset.zero_add _).symm
  · -- where a job is running the list is being drained, and only the client's own list can be
    have hmine : mine = some l := by
      by_contra hother
      have hdraining : (s.lists.get l).state = .draining := fits_of_work hsound hi hrunning
      rw [he.kept l hother] at hdraining
      exact (he.calm l).1 hdraining
    subst hmine
    rw [Option.elim_some, Option.elim_some, ended_note (hopens l rfl), heffect, hone]
    rfl

theorem Stage.kept (h : Stage start s client books asked mine phases) (hstirred : Stirred phases phases')
    (hsame : ∀ l, (s.lists.get l).state ≠ .draining → s'.lists.get l = s.lists.get l)
    (hquiet : ∀ l, (s.effect i move l).isOpening = false ∧ ∀ job, s.effect i move l ≠ .added job)
    (hprompt : ∀ l, (s.desk l).AllPrompt → (s'.desk l).AllPrompt) :
    Stage start s' client (fun l => (books l).note (s.effect i move l)) asked mine phases' := by
  cases h with
  | scanning houter hheld =>
      cases hstirred
      exact .scanning houter hheld
  | claimed hstate hjobs =>
      cases hstirred
      have hlist := hsame _ (by rw [hstate]; nofun)
      exact .claimed (by rw [hlist, hstate]) (by rw [hlist, hjobs])
  | releasing hwaits hstate =>
      cases hstirred with
      | same => exact .releasing hwaits hstate
      | roused => cases hwaits
      | woken list =>
          have hwoken : Phase.WaitsFor _ (.blocking list : Phase α L) := hwaits
          exact .releasing hwoken hstate
  | @batch jobs rest l _ hholding hof hasked hp =>
      refine .batch ((holding?_stirred hstirred).trans hholding) (hof.note (hquiet l).1 (hquiet l).2) ?_ (hprompt l hp)
      have hopening := (hquiet l).1
      cases heffect : s.effect i move l with
      | opened => rw [heffect] at hopening; cases hopening
      | _ => exact hasked

theorem Errand.step_worker (he : Errand start s client books asked mine) (hs : s.InOrder books)
    (honly : s.OnlyClient client) (hrule : s.PoolUse i move) (h : s.step? i move = some s')
    (hi : s.threads[i]? = some thread) (hworker : thread.isWorker = true) :
    Errand start s' client (fun l => (books l).note (s.effect i move l)) asked mine := by
  have hsole := soleUse_of_poolUse hrule
  have horderly := orderly_of_soleUse hs honly hsole h
  have hquiet (l : Fin L) : (s.effect i move l).isOpening = false ∧ ∀ job, s.effect i move l ≠ .added job :=
    effect_of_worker hs.plain hi hworker l
  have hsame : ∀ l, (s.lists.get l).state ≠ .draining → s'.lists.get l = s.lists.get l := fun l hl =>
    (lists_of_worker (hs.inFrame honly) (frameUse_of_soleUse hsole) hi hworker h l).resolve_right fun hother =>
      hl hother.1
  obtain ⟨own, hown, hclient, hstage⟩ := he.stage
  obtain ⟨own', hown'⟩ := exists_thread_of_step h hown
  obtain ⟨before, hbefore, hkind, hstirred⟩ := thread_of_step h hown'
  obtain rfl := Option.some.inj (hbefore.symm.trans hown)
  have hne : client ≠ i := by
    rintro rfl
    obtain rfl := Option.some.inj (hi.symm.trans hown)
    cases hworker.symm.trans hclient
  have harrive (l : Fin L) (work : Work α) : s.effect i move l ≠ .arrived work := by
    intro heffect
    obtain ⟨operation, rfl, _⟩ := arrival heffect
    obtain ⟨thread', hi', _, hcaller, _⟩ := step_use_of_rest h (phases_eq_nil hrule.1.1)
    obtain rfl := Option.some.inj (hi'.symm.trans hi)
    cases hworker.symm.trans hcaller
  have hprompt (l : Fin L) (hp : (s.desk l).AllPrompt) : (s'.desk l).AllPrompt :=
    (System.desk_step hs.plain hs.sound h horderly l).prompt (hs.sound l) (horderly.permits l) (harrive l) hp
  refine ⟨he.calm, fun l hl => ?_, he.free, he.ended_step hs.sound h fun l _ => (hquiet l).1,
    own', hown', hkind.symm.trans hclient, hstage.kept (hstirred hne) hsame hquiet hprompt⟩
  have hkept := he.kept l hl
  rw [hsame l (by rw [hkept]; exact (he.calm l).1), hkept]

theorem endedSince_eq {recent : List (JobEvent α L)} (h : s.history = recent ++ start.history) :
    s.endedSince start = recent.reverse.filterMap JobEvent.ended? := by
  rw [System.endedSince, h, List.length_append, Nat.add_sub_cancel, List.take_left]

theorem Errand.ended_after (he : Errand start s client books asked mine) (hsound : ∀ l, (s.desk l).Sound)
    (h : s.step? i move = some s') (hopens : ∀ l, mine = some l → (s.effect i move l).isOpening = false) :
    (s'.endedSince start : Multiset (Job α × Bool)) =
      mine.elim 0 fun l => ((books l).note (s.effect i move l)).ended := by
  obtain ⟨recent, hrecent, hended⟩ := he.ended_step hsound h hopens
  rw [endedSince_eq hrecent, List.filterMap_reverse, Multiset.coe_reverse, hended]

theorem Errand.none_ended (he : Errand start s client books asked none) (hsound : ∀ l, (s.desk l).Sound)
    (h : s.step? i move = some s') : s'.endedSince start = [] :=
  (Multiset.coe_eq_zero _).mp (he.ended_after hsound h nofun)

structure Strides (s s' : System α L) (client : Nat) (phase : Phase α L) (outer : List (Phase α L)) (next : Next α L)
    (s₁ : System α L) : Prop where
  advances : Advances s false phase next s₁
  lists : s'.lists = s₁.lists
  after : ∃ thread, s'.threads[client]? = some (next.place outer thread) ∧ thread.isWorker = false
  effect (l : Fin L) : s.effect client .advance l = effectAt s client l (phase :: outer)
  here {l : Fin L} {work : Work α} (h : workAt l (phase :: outer) = some work) : work ∈ (s.desk l).crew
  plain : Plain false (phase :: outer)

theorem Errand.strides (he : Errand start s client books asked mine) (hs : s.InOrder books)
    (h : s.step? client .advance = some s') : ∃ phase outer next s₁,
      Strides s s' client phase outer next s₁ ∧ Stage start s client books asked mine (phase :: outer) := by
  obtain ⟨thread, hi, hclient, hstage⟩ := he.stage
  obtain ⟨thread', hi'⟩ := exists_thread_of_step h hi
  obtain ⟨phase, outer, next, s₁, stirred, hphases, hadvance, rfl, rfl⟩ := thread_of_advance h hi hi'
  have hplain := hs.plain client thread hi
  rw [hphases, hclient] at hplain
  rw [hclient] at hadvance
  rw [hphases] at hstage
  refine ⟨phase, outer, next, s₁, ⟨hadvance, by rw [settle_eq], ⟨_, hi', hclient⟩, fun l => ?_, fun hwork => ?_,
    hplain⟩, hstage⟩
  · simp only [System.effect, hi, Option.elim_some, hphases]
  · exact mem_crew.mpr ⟨client, thread, hi, by rw [hphases, hwork]⟩

theorem Strides.fits (h : Strides s s' client phase outer next s₁) (hs : s.InOrder books) {work : Work α}
    (hwork : workAt l (phase :: outer) = some work) : work.Fits (s.lists.get l).state :=
  (hs.sound l).fits work (h.here hwork)

theorem get_of_setList {list : JobList α} (h : s'.lists = (s.setList l list).lists) :
    s'.lists.get l = list ∧ ∀ l', l' ≠ l → s'.lists.get l' = s.lists.get l' := by
  rw [h]
  refine ⟨by rw [get_setList, if_pos rfl], fun l' hl' => ?_⟩
  rw [get_setList, if_neg hl'.symm]

theorem Strides.stage (h : Strides s s' client phase outer next s₁)
    (hstage : Stage start s' client books asked mine (next.phases outer)) :
    ∃ thread, s'.threads[client]? = some thread ∧ thread.isWorker = false ∧
      Stage start s' client books asked mine thread.phases := by
  obtain ⟨thread, hi, hclient⟩ := h.after
  exact ⟨_, hi, (place_isWorker outer next thread).trans hclient, by rwa [place_phases]⟩

structure Answered (start s : System α L) (client : Nat) (asked : Operation α L) : Prop where
  calm : s.Calm
  told : ∃ thread outcome, s.threads[client]? = some thread ∧ thread.isWorker = false ∧ thread.phases = [] ∧
    thread.outcome = some outcome ∧
    ∀ workers, (start.pool workers).Tells ⟨asked, outcome, s.endedSince start⟩ (s.pool workers)

theorem Strides.answered {outcome : Outcome L} (told : Outcome L) (h : Strides s s' client phase outer (.reply outcome) s₁)
    (hdeliver : deliver outcome outer = (some told, [])) (hcalm : s'.Calm)
    (htells : ∀ workers, (start.pool workers).Tells ⟨asked, told, s'.endedSince start⟩ (s'.pool workers)) :
    Answered start s' client asked := by
  obtain ⟨thread, hi, hclient⟩ := h.after
  refine ⟨hcalm, _, told, hi, hclient, ?_, ?_, htells⟩
  · rw [place_phases, Next.phases, hdeliver]
  · rw [Next.place, hdeliver]
    rfl

/-- The list has changed, if any: it has no jobs and is not being drained. -/
theorem calm_of_change (hcalm : start.Calm) (hothers : ∀ l', l' ≠ l → s.lists.get l' = start.lists.get l')
    (hl : (s.lists.get l).state ≠ .draining ∧ (s.lists.get l).outstanding = 0) : s.Calm := by
  intro l'
  by_cases hl' : l' = l
  · rwa [hl']
  · rw [hothers l' hl']
    exact hcalm l'

theorem allPrompt_of_complete (hsound : (s.desk l).Sound) (h : (s.lists.get l).state = .complete) :
    (s.desk l).AllPrompt := by
  intro work hwork
  have hfits : work.Fits (s.lists.get l).state := hsound.fits work hwork
  have hended : (s.lists.get l).state ≠ .filling := by rw [h]; nofun
  cases work with
  | inspecting => exact hended
  | weighing | handingBack => exact absurd hfits hended
  | _ => trivial

theorem Errand.goOn (he : Errand start s client books asked mine) (hsound : ∀ l, (s.desk l).Sound)
    (h : s.step? i move = some s') (hlists : ∀ l, mine ≠ some l → s'.lists.get l = s.lists.get l)
    (hopens : ∀ l, mine = some l → (s.effect i move l).isOpening = false)
    (hstage : ∃ thread, s'.threads[client]? = some thread ∧ thread.isWorker = false ∧
      Stage start s' client (fun l => (books l).note (s.effect i move l)) asked mine thread.phases) :
    Errand start s' client (fun l => (books l).note (s.effect i move l)) asked mine :=
  ⟨he.calm, fun l hl => (hlists l hl).trans (he.kept l hl), he.free, he.ended_step hsound h hopens, hstage⟩

theorem asks_of_phases {list : Nat} (h : asked.phases = .claiming list :: outer) :
    asked = .claim ∧ outer = [] ∨ ∃ jobs, asked = .runBatch jobs ∧ outer = [.batchClaiming jobs] := by
  cases asked with
  | claim => cases h; exact .inl ⟨rfl, rfl⟩
  | runBatch jobs => cases h; exact .inr ⟨jobs, rfl, rfl⟩
  | _ => cases h

/-- The client finds a free list. -/
theorem Errand.step_claim (he : Errand start s client books asked none) (hs : s.InOrder books)
    (honly : s.OnlyClient client) (hrule : s.PoolUse client .advance) (h : s.step? client .advance = some s')
    (hfree : (s.lists.get l).state = .complete) (hheld : ∀ l' < l, (start.lists.get l').state ≠ .complete)
    (houter : asked.phases = .claiming 0 :: outer)
    (hstrides : Strides s s' client (.claiming l.val) outer (.become (.resetting l))
      (s.setList l { s.lists.get l with state := .filling })) :
    Errand start s' client (fun l => (books l).note (s.effect client .advance l)) asked (some l) := by
  have hstart : s.lists.get l = start.lists.get l := he.kept l nofun
  obtain ⟨hl, hothers⟩ := get_of_setList hstrides.lists
  have heffect : s.effect client .advance l = .opened client (askedFor outer) := by
    rw [hstrides.effect, effectAt, if_pos ⟨rfl, hfree⟩]
  have hnone := he.ended_step hs.sound h nofun
  refine ⟨he.calm, fun l' hl' => ?_, fun l' hl' => ?_, ?_, hstrides.stage ?_⟩
  · rw [hothers l' fun hsame => hl' (congrArg some hsame.symm), he.kept l' nofun]
  · cases hl'
    exact ⟨hstart ▸ hfree, hheld⟩
  · obtain ⟨recent, hrecent, hended⟩ := hnone
    refine ⟨recent, hrecent, hended.trans ?_⟩
    rw [Option.elim_some, heffect]
    rfl
  · rcases asks_of_phases houter with ⟨rfl, rfl⟩ | ⟨jobs, rfl, rfl⟩
    · exact .claimed (by rw [hl]) (by rw [hl]; exact hstart ▸ (he.calm l).2)
    · have horderly := orderly_of_soleUse hs honly (soleUse_of_poolUse hrule) h
      have hprompt := (System.desk_step hs.plain hs.sound h horderly l).prompt (hs.sound l) (horderly.permits l)
        (fun work => by rw [heffect]; nofun) (allPrompt_of_complete (hs.sound l) hfree)
      refine .batch rfl ?_ ?_ hprompt
      · rw [heffect]
        exact ⟨rfl, (Multiset.zero_add _).symm⟩
      · rw [heffect]
        rfl

theorem Errand.step_scanning (he : Errand start s client books asked none) (hs : s.InOrder books)
    (honly : s.OnlyClient client) (hrule : s.PoolUse client .advance) (h : s.step? client .advance = some s')
    {list : Nat} (houter : asked.phases = .claiming 0 :: outer)
    (hheld : ∀ l : Fin L, l.val < list → (start.lists.get l).state ≠ .complete)
    (hstrides : Strides s s' client (.claiming list) outer next s₁) :
    (∃ mine, Errand start s' client (fun l => (books l).note (s.effect client .advance l)) asked mine) ∨
      Answered start s' client asked := by
  have hadvance := hstrides.advances
  cases hadvance with
  | claim _ hlt hfree =>
      exact .inl ⟨_, he.step_claim hs honly hrule h hfree (fun l' hl' => hheld l' hl') houter hstrides⟩
  | claimNext _ hlt hother =>
      have hlists : s'.lists = s.lists := hstrides.lists
      refine .inl ⟨none, he.goOn hs.sound h (fun l _ => by rw [hlists]) nofun (hstrides.stage ?_)⟩
      refine .scanning houter fun l hl => ?_
      rcases Nat.lt_succ_iff_lt_or_eq.mp hl with hl | rfl
      · exact hheld l hl
      · rwa [he.kept ⟨l.val, hlt⟩ nofun] at hother
  | claimNone _ hge =>
      have hlists : s'.lists = s.lists := hstrides.lists
      have hsame (l : Fin L) : s'.lists.get l = start.lists.get l := by rw [hlists, he.kept l nofun]
      have hheld' (l : Fin L) : (start.lists.get l).state ≠ .complete := hheld l (Nat.lt_of_lt_of_le l.isLt hge)
      refine .inr (hstrides.answered (.done (.error (.noFreeJobLists L))) ?_ (fun l => ?_) fun workers => ?_)
      · rcases asks_of_phases houter with ⟨_, rfl⟩ | ⟨jobs, _, rfl⟩ <;> rfl
      · rw [hsame l]
        exact he.calm l
      · have hpool : s'.pool workers = start.pool workers := pool_of_lists fun l => by rw [hsame l]
        rw [he.none_ended hs.sound h, hpool]
        refine .noList ?_ (claim_of_noneFree hheld')
        rcases asks_of_phases houter with ⟨rfl, _⟩ | ⟨jobs, rfl, _⟩
        · exact .inl rfl
        · exact .inr ⟨jobs, rfl⟩

theorem ended_of_filling (hs : s.InOrder books) (h : (s.lists.get l).state = .filling) : (books l).ended = 0 := by
  have hsum := (hs.keeps l).started
  rw [(hs.keeps l).filling h, eq_comm, add_eq_zero] at hsum
  exact Multiset.map_eq_zero.mp hsum.2

/-- The client sets its list's count of panics back. -/
theorem Errand.step_claimed (he : Errand start s client books .claim (some l)) (hs : s.InOrder books)
    (h : s.step? client .advance = some s') (hstate : (s.lists.get l).state = .filling)
    (hjobs : (s.lists.get l).outstanding = 0)
    (hstrides : Strides s s' client (.resetting l) [] next s₁) : Answered start s' client .claim := by
  have hadvance := hstrides.advances
  cases hadvance
  have heffect : s.effect client .advance l = .quiet := hstrides.effect l
  obtain ⟨hl, hsame⟩ := get_of_setList hstrides.lists
  have hothers (l' : Fin L) (hl' : l' ≠ l) : s'.lists.get l' = start.lists.get l' := by
    rw [hsame l' hl', he.kept l' fun h => hl' (Option.some.inj h).symm]
  have hnone : s'.endedSince start = [] := by
    have hended := he.ended_after hs.sound h fun l' hl' => by cases hl'; rw [heffect]; rfl
    rw [Option.elim_some, heffect] at hended
    exact (Multiset.coe_eq_zero _).mp (hended.trans (ended_of_filling hs hstate))
  refine hstrides.answered _ (deliver_nil _) (calm_of_change he.calm hothers ?_) fun workers => ?_
  · rw [hl]
    exact ⟨by rw [hstate]; nofun, hjobs⟩
  · rw [hnone]
    refine .claimed ((claim_of_firstFree (he.free l rfl)).trans ?_)
    rw [pool_of_change hothers (by rw [hl, hstate]; rfl : true = _)]

/-- The client hands back a list that it had claimed. -/
theorem Errand.step_releasing (he : Errand start s client books (.wait l) none) (hs : s.InOrder books)
    (h : s.step? client .advance = some s') (hwaits : phase.WaitsFor l)
    (hstate : (start.lists.get l).state = .filling) (hstrides : Strides s s' client phase [] next s₁) :
    Errand start s' client (fun l => (books l).note (s.effect client .advance l)) (.wait l) none ∨
      Answered start s' client (.wait l) := by
  have hkept (l : Fin L) : s.lists.get l = start.lists.get l := he.kept l nofun
  have hfilling : (s.lists.get l).state = .filling := (hkept l).symm ▸ hstate
  have hjobs : (s.lists.get l).outstanding = 0 := (hkept l).symm ▸ (he.calm l).2
  have hgoOn (hlists : s₁ = s) (hnext : Stage start s' client _ (.wait l) none (next.phases [])) :=
    he.goOn hs.sound h (fun l _ => by rw [hstrides.lists, hlists]) nofun (hstrides.stage hnext)
  have hadvance := hstrides.advances
  cases phase
  case inspecting list =>
    obtain rfl : list = l := hwaits
    cases hadvance with
    | findFilling => exact .inl (hgoOn rfl (.releasing (rfl : Phase.WaitsFor list (.weighing list)) hstate))
    | findComplete _ hother | findDraining _ hother => cases hfilling.symm.trans hother
  case weighing list =>
    obtain rfl : list = l := hwaits
    cases hadvance with
    | weighEmpty => exact .inl (hgoOn rfl (.releasing (rfl : Phase.WaitsFor list (.handingBack list)) hstate))
    | weighJobs _ hsome => exact absurd hjobs hsome
  case handingBack list =>
    obtain rfl : list = l := hwaits
    cases hadvance with
    | keep _ hother => exact absurd ⟨hfilling, hjobs⟩ hother
    | handBack =>
        obtain ⟨hl, hsame⟩ := get_of_setList (l := list) hstrides.lists
        have hothers (l' : Fin L) (hl' : l' ≠ list) : s'.lists.get l' = start.lists.get l' :=
          (hsame l' hl').trans (hkept l')
        refine .inr (hstrides.answered _ (deliver_nil _) (calm_of_change he.calm hothers ?_) fun workers => ?_)
        · rw [hl]
          exact ⟨nofun, hjobs⟩
        · rw [he.none_ended hs.sound h, pool_of_change hothers (by rw [hl]; rfl : false = _)]
          exact .released list
  case blocking list | blocked list =>
    obtain rfl : list = l := hwaits
    exact absurd hfilling (hstrides.fits hs (by simp : workAt _ _ = some .waiting))
  case judging list =>
    obtain rfl : list = l := hwaits
    have hcomplete : (s.lists.get list).state = .complete := hstrides.fits hs (by simp : workAt _ _ = some .judging)
    cases hfilling.symm.trans hcomplete
  all_goals cases hwaits

theorem workAt_of_holding {jobs : List (Job α)} {l' : Fin L} {work : Work α} (hplain : Plain false phases)
    (hholding : holding? phases = some (l, jobs)) (hwork : workAt l' phases = some work) : l' = l := by
  obtain ⟨own, hown, _⟩ := work_of_holding hplain hholding
  have hsame := (workOf?_of_workAt hown).symm.trans (workOf?_of_workAt hwork)
  cases hsame
  rfl

/-- Nobody opens a list that a client has for its batch. -/
theorem Strides.not_opened {jobs : List (Job α)} (hstrides : Strides s s' client phase outer next s₁)
    (hs : s.InOrder books) (hholding : holding? (phase :: outer) = some (l, jobs)) (l' : Fin L) :
    (s.effect client .advance l').isOpening = false := by
  cases hopening : (s.effect client .advance l').isOpening with
  | false => rfl
  | true =>
      obtain ⟨work, hwork, _, hplace⟩ := work_of_holding hstrides.plain hholding
      rw [hstrides.effect] at hopening
      obtain ⟨_, hrests⟩ := hstrides.plain.opener hopening
      have hcauses := causes_effectAt s client l' (phase :: outer)
      generalize effectAt s client l' (phase :: outer) = effect at hopening hcauses
      rcases hplace with hlingers | hfilling
      · cases (hrests l work hwork).symm.trans hlingers
      · have hstate := hfilling _ (hstrides.fits hs hwork)
        cases hcauses with
        | claim => cases hholding
        | reopen outer hcomplete =>
            cases hstrides.plain with
            | call => cases hholding
            | beginning =>
                cases hholding
                cases hstate.symm.trans hcomplete
        | quiet | add | start => cases hopening

theorem asked_note (h : effect.isOpening = false) : (b.note effect).asked = b.asked := by
  cases effect with
  | opened => cases h
  | _ => rfl

/-- Once a batch is complete each of its jobs has ended, and so its client is told. -/
theorem Errand.tells_ran {jobs : List (Job α)} {ended : List (Job α × Bool)}
    (he : Errand start s client books (.runBatch jobs) (some l)) (hs : s.InOrder books)
    (hof : (books l).Of client []) (hasked : (books l).asked = jobs) (hcomplete : (s.lists.get l).state = .complete)
    (hended : (ended : Multiset (Job α × Bool)) = (books l).ended) :
    (start.pool workers).Tells (L := L) ⟨.runBatch jobs, .done (verdict l (s.lists.get l).panicked), ended⟩
      (s.pool workers) := by
  obtain ⟨hfinished, hpanicked⟩ := (hs.keeps l).finished (hs.sound l) hcomplete
  have hpool : s.pool workers = start.pool workers := by
    refine pool_of_lists fun l' => ?_
    by_cases hl' : l = l'
    · rw [← hl', hcomplete, (he.free l rfl).1]
    · rw [he.kept l' fun hsame => hl' (Option.some.inj hsame)]
  rw [hpool]
  refine .ran (claim_of_firstFree (he.free l rfl)) (Multiset.coe_eq_coe.mp ?_) ?_
  · calc (ended.map Prod.fst : Multiset (Job α))
        = (books l).ended.map Prod.fst := by rw [← hended, Multiset.map_coe]
      _ = (books l).added := hfinished.ended
      _ = (books l).asked := by rw [hof.asked, Multiset.coe_nil, add_zero]
      _ = jobs := by rw [hasked]
  · have hcount : ended.countP Prod.snd = (books l).ended.countP (·.2) := by
      rw [← hended, Multiset.coe_countP]
      exact List.countP_congr fun _ _ => by rw [decide_eq_true_iff]
    have hsum : (s.lists.get l).panicked = (books l).ended.countP (·.2) + (books l).calledBack.countP (·.2) :=
      hpanicked
    omega

/-- The client finds its batch complete. -/
theorem Errand.step_judging {jobs : List (Job α)} (he : Errand start s client books (.runBatch jobs) (some l))
    (hs : s.InOrder books) (h : s.step? client .advance = some s') (hof : (books l).Of client [])
    (hasked : (books l).asked = jobs)
    (hstrides : Strides s s' client (.judging l) [] next s₁) :
    Answered start s' client (.runBatch jobs) := by
  have hadvance := hstrides.advances
  cases hadvance
  have heffect (l' : Fin L) : s.effect client .advance l' = .quiet := hstrides.effect l'
  have hlists : s'.lists = s.lists := hstrides.lists
  have hcomplete : (s.lists.get l).state = .complete := hstrides.fits hs (by simp : workAt _ _ = some .judging)
  have hended := he.ended_after hs.sound h fun l' _ => by rw [heffect]; rfl
  rw [Option.elim_some, heffect] at hended
  refine hstrides.answered _ (deliver_nil _) (calm_of_change he.calm (l := l) (fun l' hl' => ?_) ?_) fun workers => ?_
  · rw [hlists, he.kept l' fun hsame => hl' (Option.some.inj hsame).symm]
  · rw [hlists]
    exact ⟨by rw [hcomplete]; nofun, (hs.sound l).complete hcomplete⟩
  · have hpool : s'.pool workers = s.pool workers := pool_of_lists fun l => by rw [hlists]
    rw [hpool]
    exact he.tells_ran hs hof hasked hcomplete hended

theorem Errand.step_batch {jobs rest : List (Job α)} (he : Errand start s client books (.runBatch jobs) (some l))
    (hs : s.InOrder books) (honly : s.OnlyClient client) (hrule : s.PoolUse client .advance)
    (h : s.step? client .advance = some s') (hholding : holding? (phase :: outer) = some (l, rest))
    (hof : (books l).Of client rest) (hasked : (books l).asked = jobs) (hprompt : (s.desk l).AllPrompt)
    (hstrides : Strides s s' client phase outer next s₁) :
    Errand start s' client (fun l => (books l).note (s.effect client .advance l)) (.runBatch jobs) (some l) ∨
      Answered start s' client (.runBatch jobs) := by
  have hopens := hstrides.not_opened hs hholding
  have hadvance := hstrides.advances
  have hwork (l' : Fin L) (work : Work α) (hwork : workAt l' (phase :: outer) = some work) :
      work.Fits (s.lists.get l').state ∧ work.Prompt (s.lists.get l').state := by
    obtain rfl := workAt_of_holding hstrides.plain hholding hwork
    exact ⟨hstrides.fits hs hwork, hprompt work (hstrides.here hwork)⟩
  rcases hadvance.holding (i := client) hstrides.plain hholding hwork with hreturned | ⟨rest', hnext, hholds⟩
  · rcases hadvance.returns hstrides.plain (batching_of_holding hholding) hreturned fun l' work hl' =>
      (hwork l' work hl').1 with ⟨list, _, rfl, _, _⟩ | ⟨list, rfl, rfl⟩
    · cases hholding
    · cases hholding
      exact .inr (he.step_judging hs h hof hasked hstrides)
  · obtain ⟨own, hown, _⟩ := work_of_holding hstrides.plain hholding
    have hplace : place? (phase :: outer) = some l := place?_of_work (workOf?_of_workAt hown)
    have horderly := orderly_of_soleUse hs honly (soleUse_of_poolUse hrule) h
    refine .inl (he.goOn hs.sound h (fun l' hl' => ?_) (fun l' _ => hopens l') (hstrides.stage ?_))
    · have helsewhere : place? (phase :: outer) ≠ some l' := by rwa [hplace]
      rw [hstrides.lists, (hadvance.elsewhere hstrides.plain helsewhere).1]
    · refine .batch hnext ?_ ((asked_note (hopens l)).trans hasked) ?_
      · rw [hstrides.effect l]
        refine .holds hholds fun jobs' hbefore => ?_
        cases hholding.symm.trans hbefore
        exact hof
      · refine (System.desk_step hs.plain hs.sound h horderly l).prompt (hs.sound l) (horderly.permits l)
          (fun work => ?_) hprompt
        rw [hstrides.effect l]
        exact effectAt_ne_arrived s client l _ work

theorem Errand.step_client (he : Errand start s client books asked mine) (hs : s.InOrder books)
    (honly : s.OnlyClient client) (hrule : s.PoolUse client .advance) (h : s.step? client .advance = some s') :
    (∃ mine, Errand start s' client (fun l => (books l).note (s.effect client .advance l)) asked mine) ∨
      Answered start s' client asked := by
  obtain ⟨phase, outer, next, s₁, hstrides, hstage⟩ := he.strides hs h
  generalize hphases : phase :: outer = phases at hstage
  cases hstage with
  | scanning houter hheld =>
      cases hphases
      exact he.step_scanning hs honly hrule h houter hheld hstrides
  | claimed hstate hjobs =>
      cases hphases
      exact .inr (he.step_claimed hs h hstate hjobs hstrides)
  | releasing hwaits hstate =>
      cases hphases
      exact (he.step_releasing hs h hwaits hstate hstrides).imp_left fun hnext => ⟨none, hnext⟩
  | batch hholding hof hasked hprompt =>
      subst hphases
      exact (he.step_batch hs honly hrule h hholding hof hasked hprompt hstrides).imp_left fun hnext => ⟨_, hnext⟩

end Steps

end FrameEngine.Jobs
