import FrameEngine.Proofs.Jobs.Pooling

namespace FrameEngine.Jobs

variable {α : Type} {L : Nat} {s s' s₁ start : System α L} {client workers : Nat} {books : Fin L → Batch α}
  {moves : List (Nat × Move α L)} {asked : Operation α L} {x : Exchange α L} {xs : List (Exchange α L)}

structure System.Exchanges (rule : System α L → Nat → Move α L → Prop) (s s' : System α L) (client : Nat)
    (moves : List (Nat × Move α L)) (x : Exchange α L) : Prop where
  run : s.run? ((client, .use x.asked) :: moves ++ [(client, .advance)]) = some s'
  obeys : s.Obeys rule ((client, .use x.asked) :: moves ++ [(client, .advance)])
  calls : ∀ operation, (client, .use operation) ∉ moves
  told : ∃ thread, s'.threads[client]? = some thread ∧ thread.phases = [] ∧ thread.outcome = some x.told
  ended : x.ended = s'.endedSince s

/-- A run under a rule in which the client has these exchanges one after another. -/
inductive System.Serves (rule : System α L → Nat → Move α L → Prop) (client : Nat) :
    System α L → List (Exchange α L) → System α L → Prop
  | rest (s : System α L) : Serves rule client s [] s
  | work {s s₁ s' : System α L} {i : Nat} {move : Move α L} {xs : List (Exchange α L)} (hi : i ≠ client)
      (hrule : rule s i move) (h : s.step? i move = some s₁) (hmore : Serves rule client s₁ xs s') :
      Serves rule client s xs s'
  | exchange {s s₁ s' : System α L} {moves : List (Nat × Move α L)} {x : Exchange α L} {xs : List (Exchange α L)}
      (h : s.Exchanges rule s₁ client moves x) (hmore : Serves rule client s₁ xs s') : Serves rule client s (x :: xs) s'

inductive Pool.Serves : Pool → List (Exchange α L) → Pool → Prop
  | rest (pool : Pool) : Serves pool [] pool
  | exchange {pool pool₁ pool' : Pool} {x : Exchange α L} {xs : List (Exchange α L)} (h : pool.Tells x pool₁)
      (hmore : Serves pool₁ xs pool') : Serves pool (x :: xs) pool'

structure System.Idle (s : System α L) (client : Nat) : Prop where
  inOrder : ∃ books, s.InOrder books
  onlyClient : s.OnlyClient client
  rests : s.Rests client
  calm : s.Calm

theorem System.Rests.phases_nil (h : s.Rests client) {thread : Thread α L} (hi : s.threads[client]? = some thread) :
    thread.phases = [] := by
  obtain ⟨own, hown, _, hnil⟩ := h
  rw [Option.some.inj (hi.symm.trans hown), hnil]

theorem System.InOrder.allSwept (hs : s.InOrder books) : s.AllSwept := fun i thread hi => .plain (hs.plain i thread hi)

theorem errand_of_use (hs : s.Idle client) (hrule : s.PoolUse client (.use asked))
    (h : s.step? client (.use asked) = some s') : Errand s s' client books asked none := by
  obtain ⟨thread, hi, _, hclient, rfl⟩ := step_use_of_rest h (phases_eq_nil hrule.1.1)
  have hi' : (s.setPhases client asked.phases).threads[client]? = some { thread with phases := asked.phases } := by
    rw [threads_setPhases, Array.getElem?_modify, if_pos rfl, hi]
    rfl
  refine ⟨hs.calm, fun _ _ => rfl, nofun, ⟨[], rfl, rfl⟩, _, hi', hclient, ?_⟩
  have hasked := hrule.1.2
  cases asked with
  | claim | runBatch => exact .scanning rfl fun l hl => absurd hl (Nat.not_lt_zero _)
  | wait list => exact .releasing (rfl : Phase.WaitsFor list (.inspecting list)) hasked
  | _ => cases hasked

theorem errand_step {i : Nat} {move : Move α L} (hs : s.InOrder books) (honly : s.OnlyClient client)
    (he : (∃ mine, Errand start s client books asked mine) ∨ s.Rests client) (hrule : s.PoolUse i move)
    (huse : i = client → ∀ operation, move ≠ .use operation) (h : s.step? i move = some s') :
    (∃ mine, Errand start s' client (fun l => (books l).note (s.effect i move l)) asked mine) ∨ s'.Rests client := by
  rcases he with ⟨mine, he⟩ | hrests
  · obtain ⟨thread, hi, _⟩ := Option.bind_eq_some_iff.mp h
    cases hworker : thread.isWorker with
    | true => exact .inl ⟨mine, he.step_worker hs honly hrule h hi hworker⟩
    | false =>
        obtain rfl := honly i thread hi hworker
        obtain rfl := advance_of_client hs.allSwept hi hworker (huse rfl) h
        refine (he.step_client hs honly hrule h).imp_right fun hanswered => ?_
        obtain ⟨thread', _, hi', hclient, hnil, _⟩ := hanswered.told
        exact ⟨thread', hi', hclient, hnil⟩
  · exact .inr (hrests.step hs.allSwept huse h)

theorem errand_run (hs : s.InOrder books) (honly : s.OnlyClient client)
    (he : (∃ mine, Errand start s client books asked mine) ∨ s.Rests client) (hrun : s.run? moves = some s')
    (hobeys : s.Obeys System.PoolUse moves) (hcalls : ∀ operation, (client, .use operation) ∉ moves) :
    ∃ books', s'.InOrder books' ∧ s'.OnlyClient client ∧
      ((∃ mine, Errand start s' client books' asked mine) ∨ s'.Rests client) := by
  -- over the moves, with any books before them
  induction moves generalizing s books with
  | nil =>
      cases hrun
      exact ⟨books, hs, honly, he⟩
  | cons head moves ih =>
      obtain ⟨i, move⟩ := head
      rw [run?_cons] at hrun
      obtain ⟨s₁, hmove, hrun⟩ := Option.bind_eq_some_iff.mp hrun
      simp only [System.Obeys, hmove] at hobeys
      have hhead : i = client → ∀ operation, move ≠ .use operation := by
        rintro rfl operation rfl
        exact hcalls operation List.mem_cons_self
      have horderly := orderly_of_soleUse hs honly (soleUse_of_poolUse hobeys.1) hmove
      exact ih (hs.step hmove horderly) (honly.step hmove) (errand_step hs honly he hobeys.1 hhead hmove) hrun hobeys.2
        fun operation hm => hcalls operation (List.mem_cons_of_mem _ hm)

theorem Stage.phases_ne_nil {phases : List (Phase α L)} {mine : Option (Fin L)}
    (h : Stage start s client books asked mine phases) : phases ≠ [] := by
  cases h with
  | batch hholding => rintro rfl; cases hholding
  | _ => nofun

/-- An exchange with the system is one with its pool. -/
theorem System.Idle.exchange (workers : Nat) (hs : s.Idle client) (h : s.Exchanges System.PoolUse s' client moves x) :
    s'.Idle client ∧ (s.pool workers).Tells x (s'.pool workers) := by
  obtain ⟨asked, told, ended⟩ := x
  obtain ⟨hrun, hobeys, hcalls, htold, hended⟩ := h
  obtain ⟨books, hbooks⟩ := hs.inOrder
  rw [List.cons_append, run?_cons] at hrun
  obtain ⟨s₁, huse, hrun⟩ := Option.bind_eq_some_iff.mp hrun
  rw [run?_append] at hrun
  obtain ⟨s₂, hmoves, hlast⟩ := Option.bind_eq_some_iff.mp hrun
  rw [run?_cons] at hlast
  obtain ⟨s₃, hlast, hdone⟩ := Option.bind_eq_some_iff.mp hlast
  cases hdone
  simp only [List.cons_append, System.Obeys, huse] at hobeys
  obtain ⟨hrule, hobeys⟩ := hobeys
  obtain ⟨hobeys, hend⟩ := obeys_append hobeys hmoves
  have horderly := orderly_of_soleUse hbooks hs.onlyClient (soleUse_of_poolUse hrule) huse
  obtain ⟨books', hbooks', honly, herrand⟩ := errand_run (hbooks.step huse horderly) (hs.onlyClient.step huse)
    (.inl ⟨none, errand_of_use hs hrule huse⟩) hmoves hobeys hcalls
  have horderly' := orderly_of_soleUse hbooks' honly (soleUse_of_poolUse hend.1) hlast
  obtain ⟨thread, hi, hnil, houtcome⟩ := htold
  rcases herrand with ⟨mine, herrand⟩ | hrests
  · rcases herrand.step_client hbooks' honly hend.1 hlast with ⟨mine', hgoing⟩ | hanswered
    · obtain ⟨thread', hi', _, hstage⟩ := hgoing.stage
      obtain rfl := Option.some.inj (hi.symm.trans hi')
      exact absurd hnil hstage.phases_ne_nil
    · obtain ⟨thread', outcome, hi', hclient, _, houtcome', htells⟩ := hanswered.told
      obtain rfl := Option.some.inj (hi.symm.trans hi')
      cases houtcome.symm.trans houtcome'
      cases hended
      exact ⟨⟨⟨_, hbooks'.step hlast horderly'⟩, honly.step hlast, ⟨thread, hi, hclient, hnil⟩, hanswered.calm⟩,
        htells workers⟩
  · obtain ⟨thread', phase, outer, _, _, hi', hphases, _⟩ := step_advance hlast
    cases (hrests.phases_nil hi').symm.trans hphases

theorem System.Idle.work (workers : Nat) {i : Nat} {move : Move α L} (hs : s.Idle client) (hi : i ≠ client)
    (hrule : s.PoolUse i move) (h : s.step? i move = some s') :
    s'.Idle client ∧ s'.pool workers = s.pool workers := by
  obtain ⟨books, hbooks⟩ := hs.inOrder
  obtain ⟨thread, hthread, _⟩ := Option.bind_eq_some_iff.mp h
  have hsole := soleUse_of_poolUse hrule
  have horderly := orderly_of_soleUse hbooks hs.onlyClient hsole h
  cases hworker : thread.isWorker with
  | false => exact absurd (hs.onlyClient i thread hthread hworker) hi
  | true =>
      have hlists (l : Fin L) : s'.lists.get l = s.lists.get l :=
        (lists_of_worker (hbooks.inFrame hs.onlyClient) (frameUse_of_soleUse hsole) hthread hworker h l).resolve_right
          fun hother => (hs.calm l).1 hother.1
      refine ⟨⟨⟨_, hbooks.step h horderly⟩, hs.onlyClient.step h,
        hs.rests.step hbooks.allSwept (fun hsame => absurd hsame hi) h, fun l => ?_⟩, pool_of_lists fun l => ?_⟩
      · rw [hlists l]
        exact hs.calm l
      · rw [hlists l]

theorem System.Idle.serves (workers : Nat) (hs : s.Idle client) (h : s.Serves System.PoolUse client xs s') :
    s'.Idle client ∧ (s.pool workers).Serves xs (s'.pool workers) := by
  induction h with
  | rest => exact ⟨hs, .rest _⟩
  | work hi hrule h _ ih =>
      obtain ⟨hnext, hpool⟩ := hs.work workers hi hrule h
      rw [← hpool]
      exact ih hnext
  | exchange h _ ih =>
      obtain ⟨hnext, htells⟩ := hs.exchange workers h
      obtain ⟨hlast, hmore⟩ := ih hnext
      exact ⟨hlast, .exchange htells hmore⟩

theorem idle_ofThreads (workers : Nat) : (System.ofThreads workers 1 : System α L).Idle workers where
  inOrder := ⟨_, inOrder_ofThreads workers 1⟩
  onlyClient := onlyClient_ofThreads workers
  rests := by
    have hclient : (System.ofThreads workers 1 : System α L).threads[workers]? = some { isWorker := false } := by
      simp [System.ofThreads, -Array.append_singleton]
    exact ⟨_, hclient, rfl, rfl⟩
  calm l := by
    have hlist : (System.ofThreads workers 1 : System α L).lists.get l = {} := Vector.getElem_replicate l.isLt
    rw [hlist]
    exact ⟨by simp, rfl⟩

theorem pool_ofThreads (workers : Nat) : (System.ofThreads workers 1 : System α L).pool workers =
    { workers := workers, held := List.replicate L false } := by
  refine pool_eq List.length_replicate fun l => ?_
  have hlist : (System.ofThreads workers 1 : System α L).lists.get l = {} := Vector.getElem_replicate l.isLt
  rw [List.getElem?_replicate, if_pos l.isLt, hlist]
  rfl

section Courses

variable [DecidableEq α]

def Exchange.course? (x : Exchange α L) : Option (List Nat) :=
  match x.asked, x.told with
  | .runBatch jobs, .done (.ok ()) =>
      some (x.ended.filterMap fun e => jobs.findIdx? fun other => other.task = e.1.task)
  | _, _ => none

/-- The pool of which it is known what exchanges there will be. -/
def Pool.foresees (pool : Pool) (xs : List (Exchange α L)) : Pool :=
  { pool with courses := xs.filterMap Exchange.course? }

variable {jobs : List (Job α)} {ended : List (Job α × Bool)} {told : Outcome L} {pool pool' : Pool}

theorem findIdx?_task (hjobs : (jobs.map Job.task).Nodup) {n : Nat} (hn : n < jobs.length) :
    jobs.findIdx? (fun other => other.task = jobs[n].task) = some n := by
  rw [List.findIdx?_eq_some_iff_getElem]
  refine ⟨hn, decide_eq_true rfl, fun m hm => ?_⟩
  have hne := List.pairwise_iff_getElem.mp (List.pairwise_map.mp hjobs) m n (Nat.lt_trans hm hn) hn hm
  simpa using hne

theorem getElem?_course (hjobs : (jobs.map Job.task).Nodup) {job : Job α} (hjob : job ∈ jobs) :
    ((jobs.findIdx? fun other => other.task = job.task).bind fun i => jobs[i]?) = some job := by
  obtain ⟨n, hn, rfl⟩ := List.getElem_of_mem hjob
  rw [findIdx?_task hjobs hn, Option.bind_some, List.getElem?_eq_getElem hn]

theorem forBatch_foresees (pool : Pool) (xs : List (Exchange α L)) : (pool.foresees xs).forBatch = pool.forBatch := by
  rw [Pool.forBatch, Pool.forBatch, Pool.claim, Pool.claim, Pool.foresees]
  cases pool.held.findIdx? fun held => !held <;> rfl

theorem forBatch_of_claim {list : Nat} (h : pool.claim = .ok (list, pool')) : pool.forBatch = .ok () := by
  rw [Pool.forBatch, h]
  rfl

theorem filterMap_course (hjobs : (jobs.map Job.task).Nodup) (hended : ∀ e ∈ ended, e.1 ∈ jobs) :
    (ended.filterMap fun e => jobs.findIdx? fun other => other.task = e.1.task).filterMap (fun i => jobs[i]?) =
      ended.map Prod.fst := by
  rw [List.filterMap_filterMap, ← List.filterMap_eq_map]
  exact List.filterMap_congr fun e he => getElem?_course hjobs (hended e he)

/-- What the client is told of a batch is what the pool returns. -/
theorem runBatch_of_tells (h : pool.Tells x pool') (hasked : x.asked = .runBatch jobs)
    (htold : x.told = .done (.ok ())) (hjobs : (jobs.map Job.task).Nodup) (xs : List (Exchange α L)) :
    (pool.foresees (x :: xs)).runBatch jobs = .ok (x.ended.map Prod.fst, pool'.foresees xs) := by
  cases h with
  | claimed | released => cases hasked
  | noList => cases htold
  | @ran _ ended list free panics hclaim hended =>
      cases hasked
      have hcourse : (pool.foresees (⟨.runBatch jobs, .done (verdict list panics), ended⟩ :: xs)).courses =
          (ended.filterMap fun e => jobs.findIdx? fun other => other.task = e.1.task) ::
            (pool.foresees xs).courses := by
        rw [Pool.foresees, List.filterMap_cons, Exchange.course?, htold]
        rfl
      have hmem (e : Job α × Bool) (he : e ∈ ended) : e.1 ∈ jobs := hended.mem_iff.mp (List.mem_map_of_mem he)
      rw [Pool.runBatch, forBatch_foresees, forBatch_of_claim hclaim, hcourse]
      exact congrArg (fun done => Except.ok (done, pool.foresees xs)) (filterMap_course hjobs hmem)

theorem runBatch_of_error {cause : JobError} (h : pool.Tells x pool') (hasked : x.asked = .runBatch jobs)
    (htold : x.told = .done (.error cause)) (xs : List (Exchange α L)) :
    (pool.foresees (x :: xs)).runBatch jobs = .error cause ∨ ∃ list count, cause = .panicked list count := by
  cases h with
  | claimed | released => cases hasked
  | noList _ hclaim =>
      cases htold
      refine .inl ?_
      rw [Pool.runBatch, forBatch_foresees, Pool.forBatch, hclaim]
      rfl
  | @ran _ ended list free panics hclaim hended =>
      have htold : verdict list panics = .error cause := Outcome.done.inj htold
      rw [verdict] at htold
      split at htold
      · cases htold
      · exact .inr ⟨list, panics, (Except.error.inj htold).symm⟩

theorem mem_course_of_tells {course : List Nat} {n : Nat} (h : pool.Tells x pool') (hjobs : ∀ jobs,
    x.asked = .runBatch jobs → (jobs.map Job.task).Nodup ∧ jobs.length = n) (hcourse : x.course? = some course)
    {i : Nat} (hi : i < n) : i ∈ course := by
  rw [Exchange.course?] at hcourse
  split at hcourse
  next jobs hasked htold =>
    cases hcourse
    obtain ⟨hdistinct, rfl⟩ := hjobs jobs hasked
    cases h with
    | claimed | released => cases hasked
    | noList => cases htold
    | ran hclaim hended =>
        cases hasked
        obtain ⟨e, he, hjob⟩ := List.mem_map.mp (hended.mem_iff.mpr (List.getElem_mem hi))
        refine List.mem_filterMap.mpr ⟨e, he, ?_⟩
        rw [hjob]
        exact findIdx?_task hdistinct hi
  · cases hcourse

/-- In exchanges with a pool batches of jobs that can be told apart run to their ends. -/
theorem runsToEnd_of_serves (h : pool.Serves xs pool') {n : Nat} (hjobs : ∀ x ∈ xs, ∀ jobs,
    x.asked = .runBatch jobs → (jobs.map Job.task).Nodup ∧ jobs.length = n) : (pool.foresees xs).RunsToEnd n := by
  intro course hcourse i hi
  obtain ⟨x, hx, hknown⟩ := List.mem_filterMap.mp hcourse
  clear hcourse
  induction h with
  | rest => cases hx
  | exchange htells _ ih =>
      rcases List.mem_cons.mp hx with rfl | hx
      · exact mem_course_of_tells htells (hjobs x List.mem_cons_self) hknown hi
      · exact ih (fun y hy => hjobs y (List.mem_cons_of_mem _ hy)) hx

/-- From a client that has a fresh system to itself, asks for lists and batches, and opens no list while a worker is
about to take a job off it, the system cannot be told from its pool; and batches run to their ends. -/
theorem serves_of_poolUse (hstart : Pool.start workers L = .ok pool) (hlists : 0 < L)
    (h : (System.ofThreads workers 1).Serves System.PoolUse workers xs s') :
    pool.Serves xs (s'.pool workers) ∧ ∀ n, (∀ x ∈ xs, ∀ jobs,
      x.asked = .runBatch jobs → (jobs.map Job.task).Nodup ∧ jobs.length = n) → (pool.foresees xs).RunsToEnd n := by
  have hpool : pool = (System.ofThreads workers 1 : System α L).pool workers := by
    rw [pool_ofThreads]
    rw [Pool.start] at hstart
    split at hstart
    · cases hstart
    · rw [Nat.max_eq_left hlists] at hstart
      exact (Except.ok.inj hstart).symm
  have hserves := ((idle_ofThreads workers).serves workers h).2
  rw [← hpool] at hserves
  exact ⟨hserves, fun n => runsToEnd_of_serves hserves⟩

end Courses

instance (s : System α L) (operation : Operation α L) : Decidable (operation.OfPool s) :=
  match operation with
  | .claim | .runBatch _ => inferInstanceAs (Decidable True)
  | .wait list => inferInstanceAs (Decidable ((s.lists.get list).state = .filling))
  | .begin _ | .add _ _ | .finish _ | .completeFrame | .signal | .drop => inferInstanceAs (Decidable False)

instance (s : System α L) (i : Nat) (move : Move α L) : Decidable (s.AsksPool i move) :=
  match move with
  | .use operation => inferInstanceAs (Decidable (_ ∧ operation.OfPool s))
  | .advance | .endJob _ | .endCallback _ => inferInstanceAs (Decidable True)

instance (s : System α L) (i : Nat) (move : Move α L) : Decidable (s.PoolUse i move) :=
  inferInstanceAs (Decidable (_ ∧ _))

section Starving

def sixJobs (first : Nat) : List (Job Nat) := (List.range' first 6).map fun task => ⟨task, false⟩

/-- Of two workers one finds the list being drained and goes no further; the other one runs all jobs. -/
def drainedMoves : List (Nat × Move Nat 1) :=
  goesOn 2 17 ++ goesOn 0 4 ++ (List.replicate 5 (goesOn 1 5 ++ (1, .endJob false) :: goesOn 1 1)).flatten ++
    goesOn 1 5 ++ (1, .endJob false) :: goesOn 1 2 ++ goesOn 2 1

/-- The worker takes the first job of the next batch, and counts it as the last one, before the others are added. Once
they are and the batch is ended, it completes the list. -/
def starvedMoves : List (Nat × Move Nat 1) :=
  goesOn 2 5 ++ goesOn 0 1 ++ (0, .endJob false) :: goesOn 0 1 ++ goesOn 2 12 ++ goesOn 0 1 ++ goesOn 2 1

def passed (tasks : List Nat) : List (JobEvent Nat 1) :=
  tasks.reverse.flatMap fun task => [.ended soleList ⟨task, false⟩ false, .started soleList ⟨task, false⟩]

def drainedSystem : System Nat 1 where
  epoch := 1
  lists := #v[{}]
  threads := #[{ isWorker := true, phases := [.popping 1 soleList] }, { isWorker := true, phases := [.checking] },
    { isWorker := false, outcome := some (.done (.ok ())) }]
  history := passed (List.range 6)

def starvedSystem : System Nat 1 where
  epoch := 2
  lists := #v[{ queue := (sixJobs 6).tail, outstanding := 5 }]
  threads := #[{ isWorker := true, phases := [.checking] }, { isWorker := true, phases := [.checking] },
    { isWorker := false, outcome := some (.done (.ok ())) }]
  history := passed (List.range 7)

def starvedExchanges : List (Exchange Nat 1) :=
  [⟨.runBatch (sixJobs 0), .done (.ok ()), (sixJobs 0).map (·, false)⟩,
    ⟨.runBatch (sixJobs 6), .done (.ok ()), [(⟨6, false⟩, false)]⟩]

set_option maxRecDepth 2000 in
theorem exchanges_drained : (System.ofThreads 2 1).Exchanges System.PoolUse drainedSystem 2 drainedMoves
    ⟨.runBatch (sixJobs 0), .done (.ok ()), (sixJobs 0).map (·, false)⟩ :=
  ⟨by with_unfolding_all rfl, by decide +kernel, fun operation h => by simp [drainedMoves, goesOn] at h,
    ⟨_, rfl, rfl, rfl⟩, by with_unfolding_all rfl⟩

set_option maxRecDepth 2000 in
/-- A client can be told that its batch has run while five of its six jobs are queued. -/
theorem serves_starved : (System.ofThreads 2 1).Serves System.AsksPool 2 starvedExchanges starvedSystem := by
  have hstarved : drainedSystem.Exchanges System.AsksPool starvedSystem 2 starvedMoves
      ⟨.runBatch (sixJobs 6), .done (.ok ()), [(⟨6, false⟩, false)]⟩ :=
    ⟨by with_unfolding_all rfl, by decide +kernel, fun operation h => by simp [starvedMoves, goesOn] at h,
      ⟨_, rfl, rfl, rfl⟩, by with_unfolding_all rfl⟩
  exact .exchange { exchanges_drained with obeys := by decide +kernel } (.exchange hstarved (.rest _))

example : starvedExchanges.filterMap Exchange.course? = [[0, 1, 2, 3, 4, 5], [0]] := by decide +kernel

end Starving

end FrameEngine.Jobs
