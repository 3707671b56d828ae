import FrameEngine.Proofs.Jobs.Runs

namespace FrameEngine.Jobs

variable {α : Type} {L : Nat}

def Effect.isOpening : Effect α → Bool
  | .opened _ _ => true
  | _ => false

def Work.isPopping : Work α → Bool
  | .popping => true
  | _ => false

def Operation.Suits (s : System α L) : Operation α L → Prop
  | .add list _ | .finish list => (s.lists.get list).state = .filling
  | .completeFrame | .drop => False
  | _ => True

def System.AsksWell (s : System α L) (i : Nat) : Move α L → Prop
  | .use operation => s.threads[i]?.elim [] (·.phases) = [] ∧ operation.Suits s
  | _ => True

/-- When a list is opened no worker is about to take a job off it, so that none takes one of the new batch. -/
def System.OpensQuietly (s : System α L) (i : Nat) (move : Move α L) : Prop :=
  ∀ l, (s.effect i move l).isOpening → ∀ work ∈ s.crew l, work.isPopping = false

def System.SoleUse (s : System α L) (i : Nat) (move : Move α L) : Prop := s.AsksWell i move ∧ s.OpensQuietly i move

def System.OnlyClient (s : System α L) (client : Nat) : Prop :=
  ∀ (i : Nat) (thread : Thread α L), s.threads[i]? = some thread → thread.isWorker = false → i = client

variable {s s' : System α L} {isWorker : Bool} {i j : Nat} {l : Fin L} {move : Move α L}
  {books : Fin L → Batch α} {moves : List (Nat × Move α L)}

theorem isClient_of_plain {phases : List (Phase α L)} {work : Work α} (h : Plain isWorker phases)
    (hwork : workAt l phases = some work) : work.isClient = !isWorker := by
  have hwork := workOf?_of_workAt hwork
  cases h with
  | @loop phase h =>
      cases phase
      case popping => cases hwork; rfl
      all_goals first | (cases hwork; done) | cases h
  | @job phase h =>
      cases phase
      case running | callingBack | countingPanic | countingDown | completing => cases hwork; rfl
      all_goals cases h
  | rest => cases hwork
  | @call phase h =>
      cases phase
      case claiming | beginning | signalling => cases hwork
      case resetting | counting | pushing | ending | inspecting | weighing | handingBack | blocking | blocked
          | judging =>
        cases hwork; rfl
      all_goals cases h
  | claiming => cases hwork
  | resetting | beginning | counting | pushing | ending | announcing => cases hwork; rfl

theorem isPopping_of_lingers {work : Work α} (h : work.lingers) (hclient : work.isClient = false) :
    work.isPopping := by
  cases work <;> simp_all [Work.lingers, Work.isClient, Work.isPopping]

theorem Plain.opener {phases : List (Phase α L)} (h : Plain isWorker phases)
    (hopening : (effectAt s i l phases).isOpening) :
    isWorker = false ∧ ∀ l' work, workAt l' phases = some work → work.lingers = false := by
  have hcauses := causes_effectAt s i l phases
  generalize effectAt s i l phases = effect at hcauses hopening
  cases hcauses with
  | claim outer =>
      cases h with
      | loop h | job h => cases h
      | call | claiming => exact ⟨rfl, nofun⟩
  | reopen outer =>
      cases h with
      | loop h | job h => cases h
      | call => exact ⟨rfl, nofun⟩
      | beginning list jobs =>
          refine ⟨rfl, fun l' work hwork => ?_⟩
          cases workOf?_of_workAt hwork
          rfl
  | quiet | add | start => cases hopening

theorem advance_of_isOpening (h : (s.effect i move l).isOpening) : move = .advance := by
  by_contra hmove
  rcases effect_of_ne_advance hmove with he | ⟨_, _, _, _, he⟩ | ⟨_, _, he⟩ | ⟨_, _, he⟩ <;>
    rw [he] at h <;> cases h

/-- A list is opened by a client that does not wait for a batch. -/
theorem opener (hs : s.AllPlain) (h : (s.effect i move l).isOpening) :
    ∃ thread, s.threads[i]? = some thread ∧ thread.isWorker = false ∧
      ∀ l' work, workAt l' thread.phases = some work → work.lingers = false := by
  obtain rfl := advance_of_isOpening h
  cases hthread : s.threads[i]? with
  | none => simp [System.effect, hthread, Effect.isOpening] at h
  | some thread =>
      simp only [System.effect, hthread, Option.elim_some] at h
      exact ⟨thread, rfl, (hs i thread hthread).opener h⟩

theorem effectAt_ne_arrived (s : System α L) (i : Nat) (l : Fin L) (phases : List (Phase α L))
    (work : Work α) : effectAt s i l phases ≠ .arrived work := by
  intro h
  have hcauses := causes_effectAt s i l phases
  rw [h] at hcauses
  cases hcauses

theorem arrival {work : Work α} (h : s.effect i move l = .arrived work) :
    ∃ operation, move = .use operation ∧ workAt l operation.phases = some work := by
  by_cases hmove : move = .advance
  · subst hmove
    exact absurd h (effectAt_ne_arrived s i l _ work)
  · rcases effect_of_ne_advance hmove with he | ⟨operation, work', huse, hwork, he⟩ | ⟨_, _, he⟩ | ⟨_, _, he⟩ <;>
      rw [he] at h <;> cases h
    exact ⟨operation, huse, hwork⟩

theorem Operation.Suits.fits {operation : Operation α L} (h : operation.Suits s) {work : Work α}
    (hwork : workAt l operation.phases = some work) : work.Fits (s.lists.get l).state := by
  have hwork := workOf?_of_workAt hwork
  cases operation with
  | add | finish => cases hwork; exact h
  | wait => cases hwork; trivial
  | _ => cases hwork

theorem phases_eq_nil (h : s.threads[i]?.elim [] (·.phases) = []) (thread : Thread α L)
    (hi : s.threads[i]? = some thread) : thread.phases = [] := by
  rwa [hi] at h

/-- Whatever else the threads are in: a client that asks for what suits comes to a list where no other client is, and
opens one where nobody lingers. -/
theorem permits_of_soleUse {client : Nat} (hclient : s.OnlyClient client)
    (hworkers : ∀ (j : Nat) (thread : Thread α L), s.threads[j]? = some thread → thread.isWorker = true →
      ∀ l work, workAt l thread.phases = some work → work.isClient = false)
    (hopener : ∀ l, (s.effect i move l).isOpening → ∃ thread, s.threads[i]? = some thread ∧
      thread.isWorker = false ∧ ∀ l' work, workAt l' thread.phases = some work → work.lingers = false)
    (hrule : s.SoleUse i move) (h : s.step? i move = some s') (l : Fin L) :
    (s.desk l).Permits (s.effect i move l) := by
  obtain ⟨hasks, hopens⟩ := hrule
  cases heffect : s.effect i move l with
  | opened thread jobs =>
      intro work hwork
      have hopening : (s.effect i move l).isOpening := by rw [heffect]; rfl
      obtain ⟨opener, hi, hworker, hrests⟩ := hopener l hopening
      by_contra hlingers
      obtain ⟨j, other, hj, hother⟩ := mem_crew.mp hwork
      -- a worker lingers only if it is about to take a job; the client does not wait while it opens a list
      cases hotherWorker : other.isWorker with
      | true =>
          have hpopping :=
            isPopping_of_lingers (by simpa using hlingers) (hworkers j other hj hotherWorker l work hother)
          rw [hopens l hopening work hwork] at hpopping
          cases hpopping
      | false =>
          obtain rfl := (hclient j other hj hotherWorker).trans (hclient i opener hi hworker).symm
          rw [hi] at hj
          cases hj
          exact hlingers (hrests l work hother)
  | arrived work =>
      obtain ⟨operation, rfl, hwork⟩ := arrival heffect
      obtain ⟨hphases, hsuits⟩ := hasks
      obtain ⟨thread, hi, hnil, hcaller, _⟩ := step_use_of_rest h (phases_eq_nil hphases)
      refine ⟨fun other hother => ?_, hsuits.fits hwork⟩
      obtain ⟨j, thread', hj, hother⟩ := mem_crew.mp hother
      cases hworker : thread'.isWorker with
      | true => exact hworkers j thread' hj hworker l other hother
      | false =>
          -- the client itself has come out of its last operation
          obtain rfl := (hclient j thread' hj hworker).trans (hclient i thread hi hcaller).symm
          rw [hi] at hj
          cases hj
          rw [hnil] at hother
          cases hother
  | _ => trivial

theorem orderly_of_soleUse {client : Nat} (hs : s.InOrder books) (hclient : s.OnlyClient client)
    (hrule : s.SoleUse i move) (h : s.step? i move = some s') : s.Orderly i move := by
  constructor
  · rintro operation rfl
    obtain ⟨hphases, hsuits⟩ := hrule.1
    exact ⟨by cases operation <;> first | rfl | (cases hsuits), phases_eq_nil hphases⟩
  · refine permits_of_soleUse hclient (fun j thread hj hworker l work hwork => ?_)
      (fun l => opener hs.plain) hrule h
    rw [isClient_of_plain (hs.plain j thread hj) hwork, hworker]
    rfl

theorem System.OnlyClient.step {client : Nat} (hs : s.OnlyClient client) (h : s.step? i move = some s') :
    s'.OnlyClient client := by
  intro j thread' hj hworker
  obtain ⟨thread, hthread, hsame, _⟩ := thread_of_step h hj
  exact hs j thread hthread (hsame.trans hworker)

theorem onlyClient_ofThreads (workers : Nat) : (System.ofThreads workers 1 : System α L).OnlyClient workers := by
  intro i thread hi hworker
  rcases phases_ofThreads hi with ⟨_, htrue, _⟩ | ⟨hge, hlt, _, _⟩
  · cases htrue.symm.trans hworker
  · omega

theorem inOrder_of_soleUse {workers : Nat} (hrun : (System.ofThreads workers 1).run? moves = some s)
    (hobeys : (System.ofThreads workers 1).Obeys System.SoleUse moves) :
    s.InOrder fun l => (System.ofThreads workers 1).batch l moves := by
  have hkept := run_keeps (P := fun s books => s.InOrder books ∧ s.OnlyClient workers)
    (fun s i move s' books hs hrule h => ⟨hs.1.step h (orderly_of_soleUse hs.1 hs.2 hrule h), hs.2.step h⟩)
    ⟨inOrder_ofThreads workers 1, onlyClient_ofThreads workers⟩ hrun hobeys
  exact hkept.1

def Phase.WaitsFor (l : Fin L) : Phase α L → Prop
  | .inspecting list | .weighing list | .handingBack list | .blocking list | .blocked list | .judging list =>
      list = l
  | _ => False

structure System.EndsWait (s s' : System α L) (i : Nat) (l : Fin L) (result : Except JobError Unit) : Prop where
  waits : ∃ (thread : Thread α L) (phase : Phase α L),
    s.threads[i]? = some thread ∧ thread.phases = [phase] ∧ phase.WaitsFor l
  step : s.step? i .advance = some s'
  returns : ∃ (thread : Thread α L),
    s'.threads[i]? = some thread ∧ thread.phases = [] ∧ thread.outcome = some (.done result)

def verdict (l : Fin L) (panics : Nat) : Except JobError Unit :=
  if panics = 0 then .ok () else .error (.panicked l panics)

/-- A wait for a batch that is ended returns once the list is complete, with its count of panics. -/
theorem System.InOrder.wait_returns (hs : s.InOrder books) {thread thread' : Thread α L} {phase : Phase α L}
    (hi : s.threads[i]? = some thread) (hphases : thread.phases = [phase]) (hwaits : phase.WaitsFor l)
    (hended : (s.lists.get l).state ≠ .filling) (h : s.step? i .advance = some s')
    (hi' : s'.threads[i]? = some thread') (hreturned : thread'.phases = []) :
    (s.lists.get l).state = .complete ∧ thread'.outcome = some (.done (verdict l (s.lists.get l).panicked)) ∧
      s'.lists = s.lists := by
  obtain ⟨phase₀, outer, next, s₁, phases, hphases₀, hadvance, rfl, rfl⟩ := thread_of_advance h hi hi'
  rw [hphases] at hphases₀
  cases hphases₀
  have hfits (work : Work α) (hwork : workAt l [phase] = some work) : work.Fits (s.lists.get l).state :=
    fits_of_work hs.sound hi (by rw [hphases, hwork])
  rw [place_phases] at hreturned
  rw [settle_eq]
  cases phase
  case inspecting | blocking => cases hadvance <;> cases hreturned
  case weighing list =>
    obtain rfl : list = l := hwaits
    exact absurd (hfits .weighing (by simp)) hended
  case handingBack list =>
    obtain rfl : list = l := hwaits
    exact absurd (hfits .handingBack (by simp)) hended
  case blocked => cases hadvance
  case judging list =>
    obtain rfl : list = l := hwaits
    cases hadvance
    refine ⟨hfits .judging (by simp), ?_, rfl⟩
    simp only [Next.place, deliver_nil, Option.some_or, verdict]
  all_goals cases hwaits

/-- What one client can rely on, with any number of workers, lists and batches: while a list is filled no job of
the batch has started, and nothing is there of the batch before; and a wait for a batch that is ended returns once
each of its jobs has run, with the number of those that panicked, and leaves the list free. -/
theorem waits_of_soleUse {workers : Nat} (hrun : (System.ofThreads workers 1).run? moves = some s)
    (hobeys : (System.ofThreads workers 1).Obeys System.SoleUse moves) (l : Fin L) :
    ((s.lists.get l).state = .filling → (s.desk l).Fresh ((System.ofThreads workers 1).batch l moves)) ∧
      ∀ i s' result, s.EndsWait s' i l result → (s.lists.get l).state ≠ .filling →
        ((System.ofThreads workers 1).batch l moves).Finished ∧
          result = verdict l ((System.ofThreads workers 1).batch l moves).panics ∧
          (s'.lists.get l).state = .complete ∧ (s'.lists.get l).outstanding = 0 ∧ (s'.lists.get l).queue = [] := by
  have hs := inOrder_of_soleUse hrun hobeys
  refine ⟨fun hfilling => (hs.keeps l).fresh (hs.sound l) hfilling, fun i s' result hwait hended => ?_⟩
  obtain ⟨⟨thread, phase, hi, hphases, hwaits⟩, hstep, thread', hi', hreturned, houtcome⟩ := hwait
  obtain ⟨hcomplete, hresult, hlists⟩ := hs.wait_returns hi hphases hwaits hended hstep hi' hreturned
  rw [houtcome] at hresult
  cases hresult
  obtain ⟨hfinished, hpanicked⟩ := (hs.keeps l).finished (hs.sound l) hcomplete
  have hpanicked : (s.lists.get l).panicked = _ := hpanicked
  rw [hlists]
  exact ⟨hfinished, by rw [hpanicked], hcomplete, (hs.sound l).complete hcomplete,
    (hs.sound l).queue_of_complete hcomplete⟩

instance (s : System α L) (i : Nat) (move : Move α L) : Decidable (s.AsksWell i move) :=
  match move with
  | .use operation => match operation with
      | .add list _ | .finish list => inferInstanceAs (Decidable (_ ∧ (s.lists.get list).state = .filling))
      | .completeFrame | .drop => inferInstanceAs (Decidable (_ ∧ False))
      | .claim | .begin _ | .wait _ | .runBatch _ | .signal => inferInstanceAs (Decidable (_ ∧ True))
  | .advance | .endJob _ | .endCallback _ => inferInstanceAs (Decidable True)

instance (s : System α L) (i : Nat) (move : Move α L) : Decidable (s.OpensQuietly i move) :=
  inferInstanceAs (Decidable (∀ l, (s.effect i move l).isOpening → ∀ work ∈ s.crew l, work.isPopping = false))

instance (s : System α L) (i : Nat) (move : Move α L) : Decidable (s.SoleUse i move) :=
  inferInstanceAs (Decidable (_ ∧ _))

section Runs

def soleList : Fin 1 := 0

def goesOn (i count : Nat) : List (Nat × Move Nat 1) := List.replicate count (i, .advance)

def panickingMoves : List (Nat × Move Nat 1) :=
  (1, .use .claim) :: goesOn 1 2 ++ (1, .use (.add soleList ⟨7, true⟩)) :: goesOn 1 2 ++
    (1, .use (.finish soleList)) :: goesOn 1 2 ++ goesOn 0 5 ++ (0, .endJob true) :: goesOn 0 3

def waitingMoves : List (Nat × Move Nat 1) := (1, .use (.wait soleList)) :: goesOn 1 1

def systemAfterPanic (panicked : Nat) (phases : List (Phase Nat 1)) (result : Except JobError Unit) :
    System Nat 1 where
  epoch := 1
  lists := #v[{ panicked := panicked }]
  threads := #[{ isWorker := true, phases := [.checking] },
    { isWorker := false, phases := phases, outcome := some (.done result) }]
  history := [.ended soleList ⟨7, true⟩ true, .started soleList ⟨7, true⟩]

theorem waits_of_soleUse_panicked : ∃ s s' : System Nat 1, s.EndsWait s' 1 soleList (.error (.panicked 0 1)) ∧
    ((System.ofThreads 1 1 : System Nat 1).batch soleList (panickingMoves ++ waitingMoves)).Finished ∧
    ((System.ofThreads 1 1 : System Nat 1).batch soleList (panickingMoves ++ waitingMoves)).panics = 1 := by
  have hrun : (System.ofThreads 1 1).run? (panickingMoves ++ waitingMoves) =
      some (systemAfterPanic 1 [.judging soleList] (.ok ())) := by
    with_unfolding_all rfl
  have hobeys : (System.ofThreads 1 1).Obeys System.SoleUse (panickingMoves ++ waitingMoves) := by
    decide +kernel
  have hwait : (systemAfterPanic 1 [.judging soleList] (.ok ())).EndsWait
      (systemAfterPanic 1 [] (.error (.panicked 0 1))) 1 soleList (.error (.panicked 0 1)) :=
    ⟨⟨_, .judging soleList, rfl, rfl, rfl⟩, by with_unfolding_all rfl, ⟨_, rfl, rfl, rfl⟩⟩
  obtain ⟨hfinished, hresult, _⟩ := (waits_of_soleUse hrun hobeys soleList).2 1 _ _ hwait nofun
  exact ⟨_, _, hwait, hfinished, by with_unfolding_all rfl⟩

/-- The panic of a batch is lost when its list is claimed for another batch before the client waits for it. -/
theorem panic_lost_to_next_batch : ∃ s s' : System Nat 1,
    (System.ofThreads 1 1).run? (panickingMoves ++ (1, .use (.runBatch [])) :: goesOn 1 6 ++ waitingMoves) = some s ∧
      .ended soleList ⟨7, true⟩ true ∈ s.history ∧ s.EndsWait s' 1 soleList (.ok ()) := by
  refine ⟨systemAfterPanic 0 [.judging soleList] (.ok ()), systemAfterPanic 0 [] (.ok ()),
    by with_unfolding_all rfl, List.mem_cons_self, ?_⟩
  exact ⟨⟨_, .judging soleList, rfl, rfl, rfl⟩, by with_unfolding_all rfl, ⟨_, rfl, rfl, rfl⟩⟩

/-- Two workers find a list being drained; one runs its only job, and the client fills the list again. -/
def earlyMoves : List (Nat × Move Nat 1) :=
  (2, .use .claim) :: goesOn 2 2 ++ (2, .use (.add soleList ⟨1, false⟩)) :: goesOn 2 2 ++
    (2, .use (.finish soleList)) :: goesOn 2 2 ++ goesOn 0 4 ++ goesOn 1 5 ++ (1, .endJob false) :: goesOn 1 2 ++
    (2, .use .claim) :: goesOn 2 2 ++ (2, .use (.add soleList ⟨2, false⟩)) :: goesOn 2 2

/-- A job can start while its list is still being filled: the worker had looked at the list's state before. -/
theorem job_starts_early : ((System.ofThreads 2 1).run? (earlyMoves ++ goesOn 0 1)).map
    (fun s => ((s.lists.get soleList).state, s.history.head?)) =
      some (.filling, some (.started soleList ⟨2, false⟩)) := by
  with_unfolding_all rfl

end Runs

end FrameEngine.Jobs
