import FrameEngine.Proofs.Jobs.Shutdown
import FrameEngine.Proofs.Jobs.Sweeps

namespace FrameEngine.Jobs

variable {α : Type} {L : Nat} {s s' s₁ : System α L} {isWorker : Bool} {phase p : Phase α L}
  {outer : List (Phase α L)} {next : Next α L} {i j client : Nat} {l : Fin L} {move : Move α L}
  {moves : List (Nat × Move α L)} {pending : Option (Fin L)}

open Work (beside)

open Desk (Step)

def System.noteHandover (s : System α L) (i : Nat) (pending : Option (Fin L)) : Move α L → Option (Fin L)
  | .advance => match s.threads[i]?.elim [] (·.phases) with
      | .ending list :: _ => if (s.lists.get list).outstanding = 0 then pending else some list
      | .signalling :: _ => none
      | _ => pending
  | _ => pending

def System.unannouncedFrom (s : System α L) (pending : Option (Fin L)) : List (Nat × Move α L) → Option (Fin L)
  | [] => pending
  | (i, move) :: moves => match s.step? i move with
      | none => pending
      | some s' => s'.unannouncedFrom (s.noteHandover i pending move) moves

def System.unannounced (s : System α L) (moves : List (Nat × Move α L)) : Option (Fin L) :=
  s.unannouncedFrom none moves

def Work.fills : Work α → Bool
  | .resetting | .beginning | .counting _ | .pushing _ | .ending => true
  | _ => false

/-- The worker's scan is past the list. -/
def Phase.HasPassed (l : Fin L) : Phase α L → Prop
  | .scanning _ list => l.val < list
  | .trying _ list | .popping _ list => l < list
  | .retiring _ | .idle _ => True
  | _ => False

/-- A worker finds nothing at the list until another batch is handed over there. -/
def System.Cleared (s : System α L) (pending : Option (Fin L)) (l : Fin L) : Prop :=
  (s.lists.get l).state = .draining → (s.lists.get l).queue = [] ∨ pending = some l

theorem Work.isClient_of_fills {work : Work α} (h : work.fills) : work.isClient := by
  cases work <;> first | rfl | cases h

theorem Work.not_fills_afterJob (job : Job α) (panicked : Bool) : (afterJob job panicked).fills = false := by
  rcases afterJob_cases job panicked with ⟨_, he⟩ | ⟨_, _, he⟩ | ⟨_, _, he⟩ <;> rw [he] <;> rfl

theorem Work.not_fills_afterCallback (panicked : Bool) : (afterCallback panicked : Work α).fills = false := by
  cases panicked <;> rfl

theorem Work.Fits.filling {state : ListState} {work : Work α} (h : work.Fits state) (hfills : work.fills) :
    state = .filling := by
  cases work <;> first | exact h | cases hfills

section Accounts

/-- What is outstanding is in the queue or with a thread, even if a list is opened while threads are still there. -/
def System.Accounted (s : System α L) : Prop :=
  ∀ l, (s.lists.get l).outstanding = (s.lists.get l).queue.length + Work.held (s.crew l)

theorem phase_of_completing (h : workAt l (phase :: outer) = some .completing) : phase = .completing l := by
  have h := workOf?_of_workAt h
  unfold workOf? at h
  split at h <;> cases h
  next heq => cases heq; rfl

theorem Advances.outstanding (h : Advances s isWorker phase next s₁) (hs : Swept isWorker (phase :: outer))
    (hbeginning : workAt l (phase :: outer) = some .beginning → (s.lists.get l).state = .filling)
    (others : Multiset (Work α))
    (hbefore : (s.lists.get l).outstanding =
      (s.lists.get l).queue.length + Work.held (beside others (workAt l (phase :: outer)))) :
    (s₁.lists.get l).outstanding =
      (s₁.lists.get l).queue.length + Work.held (beside others (workAt l (next.phases outer))) := by
  by_cases hlate : workAt l (phase :: outer) = some .completing ∧ (s.lists.get l).state ≠ .draining
  · -- the list was opened again before this thread came to complete it: the thread leaves it alone
    obtain ⟨hwork, hstate⟩ := hlate
    obtain rfl := phase_of_completing hwork
    obtain rfl : outer = [.checking] := by
      cases hs with
      | plain hplain =>
          cases hplain with
          | job => rfl
          | loop hloop => cases hloop
          | call hcall => cases hcall
      | wait hwaits => cases hwaits
    rw [hwork] at hbefore
    cases h with
    | complete _ hdraining => exact absurd hdraining hstate
    | leaveOpen => simpa [Work.holdsJob] using hbefore
  · have hinStep (work : Work α) (hwork : workAt l (phase :: outer) = some work) :
        work.InStep (s.lists.get l).state := by
      cases work with
      | completing =>
          by_contra hstate
          exact hlate ⟨hwork, hstate⟩
      | beginning => exact hbeginning hwork
      | _ => trivial
    obtain ⟨_, hstep, _⟩ := h.step_swept (i := 0) hs others hinStep
    exact hstep.outstanding hbefore

end Accounts

section Filling

/-- A list that is being filled stays so until it is ended or handed back. -/
theorem filling_of_advances (h : Advances s isWorker phase next s₁) (hfilling : (s.lists.get l).state = .filling) :
    (s₁.lists.get l).state = .filling ∨ phase = .ending l ∨ phase = .handingBack l := by
  cases h with
  | endEmpty list | handOver list | handBack list =>
      by_cases hl : list = l
      · subst hl
        simp
      · exact .inl (by simpa [hl] using hfilling)
  | complete list hdraining =>
      have hl : list ≠ l := by
        rintro rfl
        cases hdraining.symm.trans hfilling
      exact .inl (by simpa [hl] using hfilling)
  | tally list | countDown list | countLast list | claim list | reset list | begin list | count list | push list =>
      left
      rw [get_setList]
      split <;> simp_all
  | pop _ list | take list =>
      left
      simp only [System.record, get_setList]
      split <;> simp_all
  | _ => exact .inl hfilling

theorem not_fills_of_waitsFor {work : Work α} {waited : Fin L} (h : phase.WaitsFor waited)
    (hwork : workAt l (phase :: outer) = some work) : work.fills = false := by
  have hwork := workOf?_of_workAt hwork
  cases phase <;> first | (cases hwork; rfl) | cases h

/-- A client goes on to fill a list only while the list is being filled. -/
theorem Advances.filling (h : Advances s false phase next s₁) (hs : Swept false (phase :: outer))
    (hbefore : ∀ work, workAt l (phase :: outer) = some work → work.fills → (s.lists.get l).state = .filling)
    {work : Work α} (hwork : workAt l (next.phases outer) = some work) (hfills : work.fills) :
    (s₁.lists.get l).state = .filling := by
  have hnot {waited : Fin L} {phase' : Phase α L} {outer' : List (Phase α L)} (hwaits : phase'.WaitsFor waited)
      (hwork : workAt l (phase' :: outer') = some work) : (s₁.lists.get l).state = .filling := by
    rw [not_fills_of_waitsFor hwaits hwork] at hfills
    cases hfills
  cases hs with
  | plain hplain =>
      cases hplain with
      | call hcall =>
          by_cases hwaiting : ∃ waited, phase.WaitsFor waited
          · obtain ⟨waited, hwaits⟩ := hwaiting
            rcases h.wait hwaits with ⟨phase', rfl, hwaits'⟩ | ⟨result, rfl⟩
            · exact hnot hwaits' hwork
            · simp at hwork
          · cases phase
            case claiming => cases h <;> simp_all
            case counting list job =>
              have hcounting := hbefore (.counting job)
              cases h
              simp_all [Work.fills]
            case resetting | beginning | pushing | ending | signalling => cases h <;> simp_all
            case inspecting list | weighing list | handingBack list | blocking list | blocked list | judging list =>
              exact absurd ⟨list, rfl⟩ hwaiting
            all_goals cases hcall
      | claiming => cases h <;> simp_all
      | resetting list jobs =>
          have hresetting := hbefore .resetting
          cases h
          simp_all [Work.fills]
      | beginning list jobs =>
          have hbeginning := hbefore .beginning
          cases h with
          | busy => simp at hwork
          | begin =>
              rw [Next.phases, workAt_filling] at hwork
              simp_all
      | counting list job jobs =>
          have hcounting := hbefore (.counting job)
          cases h
          simp_all [Work.fills]
      | pushing list job jobs =>
          have hpushing := hbefore (.pushing job)
          cases h
          rw [Next.phases, workAt_filling] at hwork
          simp_all [Work.fills]
      | ending list =>
          cases h with
          | endEmpty =>
              have hwaits : Phase.WaitsFor list (.inspecting list : Phase α L) := rfl
              exact hnot hwaits hwork
          | handOver =>
              cases workOf?_of_workAt hwork
              cases hfills
      | announcing list =>
          cases h
          have hwaits : Phase.WaitsFor list (.inspecting list : Phase α L) := rfl
          exact hnot hwaits hwork
  | sweep list result =>
      cases h with
      | sweepWait _ _ hlt =>
          have hwaits : Phase.WaitsFor ⟨list, hlt⟩ (.inspecting ⟨list, hlt⟩ : Phase α L) := rfl
          exact hnot hwaits hwork
      | sweepNext => cases hwork
      | sweepEnd => simp at hwork
  | wait hwaits result =>
      rcases h.wait hwaits with ⟨phase', rfl, hwaits'⟩ | ⟨waited, rfl⟩
      · exact hnot hwaits' hwork
      · rw [Next.phases, deliver_sweeping] at hwork
        cases hwork

/-- What a list that is being drained was before: it was just ended, a job was put into it, or it was being drained and
no job was put into it. -/
theorem draining_of_advances (h : Advances s isWorker phase next s₁) (hdraining : (s₁.lists.get l).state = .draining) :
    (∃ job, phase = .pushing l job) ∨ (phase = .ending l ∧ (s.lists.get l).outstanding ≠ 0) ∨
      ((s.lists.get l).state = .draining ∧ ((s.lists.get l).queue = [] → (s₁.lists.get l).queue = [])) := by
  cases h with
  | handOver list hjobs =>
      by_cases hl : list = l
      · subst hl
        exact .inr (.inl ⟨rfl, hjobs⟩)
      · simp_all
  | push list job =>
      by_cases hl : list = l
      · subst hl
        exact .inl ⟨job, rfl⟩
      · simp_all
  | complete list | endEmpty list | handBack list | tally list | countDown list | countLast list | claim list
  | reset list | begin list | count list =>
      right; right
      simp only [get_setList, get_completeList] at hdraining ⊢
      split at hdraining <;> simp_all
  | pop _ list | take list =>
      right; right
      simp only [System.record, get_setList] at hdraining ⊢
      split at hdraining <;> simp_all
  | _ => exact .inr (.inr ⟨hdraining, id⟩)

end Filling

section Seen

/-- A worker gets past a list when it finds nothing there, or finds that the list is not being drained. -/
theorem cleared_of_fresh {e : Nat} (h : Advances s isWorker phase next s₁) (hp : p ∈ next.fresh)
    (he : p.seen? = some e) (hl : p.HasPassed l)
    (hcount : (s.lists.get l).outstanding = (s.lists.get l).queue.length + Work.held (s.crew l)) :
    (phase.seen? = some e ∧ phase.HasPassed l) ∨
      ((s.lists.get l).state = .draining → (s.lists.get l).queue = []) := by
  cases h <;> simp only [Next.fresh, List.mem_cons, List.not_mem_nil, or_false] at hp
  case readEpoch => subst hp; exact absurd hl (Nat.not_lt_zero _)
  case find seen list hlt _ => subst hp; exact .inl ⟨he, hl⟩
  case accept seen list _ => subst hp; exact .inl ⟨he, hl⟩
  case retire seen list hge => subst hp; exact .inl ⟨he, Nat.lt_of_lt_of_le l.isLt hge⟩
  case sleep => subst hp; exact .inl ⟨he, trivial⟩
  case pass seen list hlt hjobs =>
    subst hp
    rcases Nat.lt_succ_iff_lt_or_eq.mp hl with hl | rfl
    · exact .inl ⟨he, hl⟩
    · have hjobs : (s.lists.get l).outstanding = 0 := hjobs
      exact .inr fun _ => List.eq_nil_of_length_eq_zero (by omega)
  case refuse seen list hother =>
    subst hp
    rcases Nat.lt_succ_iff_lt_or_eq.mp hl with hl | hl
    · exact .inl ⟨he, hl⟩
    · rw [Fin.ext hl]
      exact .inr fun hdraining => absurd hdraining hother
  case miss seen list hqueue =>
    subst hp
    rcases Nat.lt_succ_iff_lt_or_eq.mp hl with hl | hl
    · exact .inl ⟨he, hl⟩
    · rw [Fin.ext hl]
      exact .inr fun _ => hqueue
  case pop | take | sweepWait => rcases hp with rfl | rfl <;> cases he
  case check | findDraining =>
    subst hp
    split at he <;> cases he
  all_goals subst hp; cases he

theorem epoch_of_idle_fresh {seen : Nat} (h : Advances s isWorker phase next s₁) (hp : .idle seen ∈ next.fresh) :
    s₁.epoch = seen := by
  cases h <;> simp only [Next.fresh, List.mem_cons, List.not_mem_nil, or_false, reduceCtorEq] at hp
  case sleep _ hseen => cases hp; exact hseen
  case check | findDraining => split at hp <;> cases hp

theorem epoch_of_advances (h : Advances s isWorker phase next s₁) :
    s₁.epoch = s.epoch ∨ (phase = .signalling ∨ phase = .announcingStop) ∧ s₁ = s.notify := by
  cases h with
  | signal => exact .inr ⟨.inl rfl, rfl⟩
  | announceStop => exact .inr ⟨.inr rfl, rfl⟩
  | _ => exact .inl rfl

end Seen

theorem Swept.of_idle {phases : List (Phase α L)} {seen : Nat} (h : Swept isWorker phases)
    (hmem : .idle seen ∈ phases) : isWorker = true ∧ phases = [.idle seen] := by
  cases h with
  | plain hplain =>
      cases hplain with
      | loop => exact ⟨rfl, by simp_all⟩
      | @job phase hjob => cases phase <;> simp_all [Phase.isJob]
      | @call phase hcall => cases phase <;> simp_all [Phase.isCall]
      | _ => simp at hmem
  | sweep => simp at hmem
  | @wait phase _ hwaits => cases phase <;> simp_all [Phase.WaitsFor]

theorem phases_of_notify {thread : Thread α L} {seen : Nat} (h : s.notify.threads[i]? = some thread) :
    thread.phases ≠ [.idle seen] := by
  simp only [System.notify, System.rouse, Array.getElem?_map, Option.map_eq_some_iff] at h
  obtain ⟨before, _, rfl⟩ := h
  dsimp only
  split
  · simp
  next hother => exact hother seen []

structure System.Wakeful (s : System α L) (client : Nat) (pending : Option (Fin L)) : Prop where
  swept : s.AllSwept
  onlyClient : s.OnlyClient client
  timely : s.Timely
  accounted : s.Accounted
  filling : ∀ (i : Nat) (thread : Thread α L) (l : Fin L) (work : Work α), s.threads[i]? = some thread →
    workAt l thread.phases = some work → work.fills → (s.lists.get l).state = .filling
  signalling : ∀ l, pending = some l →
    ∃ thread outer, s.threads[client]? = some thread ∧ thread.phases = .signalling :: outer
  cleared : ∀ i phase l, s.InPhase i phase → phase.seen? = some s.epoch → phase.HasPassed l → s.Cleared pending l
  asleep : ∀ i seen, s.InPhase i (.idle seen) → seen = s.epoch

section Step

theorem rest_of_ne_advance (hmove : move ≠ .advance) (h : s.step? i move = some s') :
    s'.lists = s.lists ∧ s'.epoch = s.epoch := by
  cases move with
  | advance => exact absurd rfl hmove
  | use operation => obtain ⟨_, _, rfl, _⟩ := step_use h; exact ⟨rfl, rfl⟩
  | endJob panicked => obtain ⟨_, _, _, _, _, _, _, rfl⟩ := step_endJob h; rw [settle_eq]; exact ⟨rfl, rfl⟩
  | endCallback panicked => obtain ⟨_, _, _, _, _, _, rfl⟩ := step_endCallback h; rw [settle_eq]; exact ⟨rfl, rfl⟩

theorem noteHandover_of_ne_advance (hmove : move ≠ .advance) : s.noteHandover i pending move = pending := by
  cases move with
  | advance => exact absurd rfl hmove
  | _ => rfl

theorem noteHandover_advance {thread : Thread α L} (hi : s.threads[i]? = some thread)
    (hphases : thread.phases = phase :: outer) : s.noteHandover i pending .advance = match phase with
      | .ending list => if (s.lists.get list).outstanding = 0 then pending else some list
      | .signalling => none
      | _ => pending := by
  simp only [System.noteHandover, hi, Option.elim_some, hphases]
  cases phase <;> rfl

/-- Workers do not hand lists over, and do not signal. -/
theorem noteHandover_of_worker {thread : Thread α L} (hi : s.threads[i]? = some thread)
    (hplain : Plain true thread.phases) : s.noteHandover i pending move = pending := by
  by_cases hmove : move = .advance
  · subst hmove
    generalize hphases : thread.phases = phases at hplain
    cases hplain with
    | @loop phase hphase | @job phase hphase =>
        rw [noteHandover_advance hi hphases]
        cases phase <;> first | rfl | cases hphase
  · exact noteHandover_of_ne_advance hmove

variable (hs : s.Wakeful client pending)

include hs

theorem System.Wakeful.eq_client {thread : Thread α L} (hi : s.threads[i]? = some thread) {work : Work α}
    (hwork : workAt l thread.phases = some work) (hfills : work.isClient) : i = client := by
  have hkind := isClient_of_swept (hs.swept i thread hi) hwork
  rw [hfills] at hkind
  exact hs.onlyClient i thread hi (by simpa using hkind)

theorem System.Wakeful.accounted_step (hrule : s.UsesLists i move) (h : s.step? i move = some s') : s'.Accounted := by
  intro l
  by_cases hmove : move = .advance
  · subst hmove
    obtain ⟨thread, phase, outer, next, s₁, hi, hphases, hadvance, hdesk, hdesk', _⟩ := desk_advance h l
    have hswept := hs.swept i thread hi
    rw [hphases] at hswept
    obtain ⟨hlist, hcrew⟩ := Desk.mk.inj hdesk
    obtain ⟨hlist', hcrew'⟩ := Desk.mk.inj hdesk'
    rw [hlist', hcrew']
    refine hadvance.outstanding hswept (fun hwork => ?_) _ (by rw [← hcrew]; exact hs.accounted l)
    exact hs.filling i thread l .beginning hi (by rw [hphases, hwork]) rfl
  · have hstep := desk_step_of_ne_advance (l := l) hmove h fun operation huse =>
      ⟨fun _ => isArrival_of_phases, (huse ▸ hrule).phases_nil⟩
    exact hstep.outstanding (hs.accounted l)

theorem System.Wakeful.filling_step (hrule : s.UsesLists i move) (h : s.step? i move = some s')
    {thread' : Thread α L} {work : Work α} (hj : s'.threads[j]? = some thread')
    (hwork : workAt l thread'.phases = some work) (hfills : work.fills) : (s'.lists.get l).state = .filling := by
  obtain ⟨thread, hthread, hkind, hstirred⟩ := thread_of_step h hj
  by_cases hji : j = i
  · subst hji
    have hclient : thread'.isWorker = false := by
      have hwho := isClient_of_swept (hs.swept.step hrule h j thread' hj) hwork
      rw [Work.isClient_of_fills hfills] at hwho
      simpa using hwho
    cases move with
    | advance =>
        obtain ⟨phase, outer, next, s₁, phases, hphases, hadvance, rfl, rfl⟩ := thread_of_advance h hthread hj
        have hswept := hs.swept j thread hthread
        rw [hkind, hclient, hphases] at hswept
        rw [hkind, hclient] at hadvance
        rw [place_phases] at hwork
        rw [settle_eq]
        refine hadvance.filling hswept (fun before hbefore => ?_) hwork hfills
        exact hs.filling j thread l before hthread (by rw [hphases, hbefore])
    | use operation =>
        obtain ⟨thread₀, hi, _, _, rfl⟩ := step_use_of_rest h hrule.phases_nil
        rw [threads_setPhases, Array.getElem?_modify, if_pos rfl, hi] at hj
        cases hj
        have hfits : work.Fits (s.lists.get l).state := by
          cases operation with
          | completeFrame => cases hwork
          | _ => exact hrule.2.fits hwork
        exact hfits.filling hfills
    | endJob panicked =>
        obtain ⟨thread₀, list, job, uses, outer, hi, hphases, rfl⟩ := step_endJob h
        rw [thread_of_settle (s := s.record _) hi hj, place_phases, Next.phases, workAt_afterJob] at hwork
        split at hwork <;> cases hwork
        rw [Work.not_fills_afterJob] at hfills
        cases hfills
    | endCallback panicked =>
        obtain ⟨thread₀, list, job, outer, hi, hphases, rfl⟩ := step_endCallback h
        rw [thread_of_settle (s := s.record _) hi hj, place_phases, Next.phases, workAt_afterCallback] at hwork
        split at hwork <;> cases hwork
        rw [Work.not_fills_afterCallback] at hfills
        cases hfills
  · rw [(hstirred hji).workAt] at hwork
    have hbefore := hs.filling j thread l work hthread hwork hfills
    have hclient := hs.eq_client hthread hwork (Work.isClient_of_fills hfills)
    by_cases hmove : move = .advance
    · subst hmove
      obtain ⟨mover, phase, outer, next, s₁, hi, hphases, hadvance, rfl⟩ := step_advance h
      rw [settle_eq]
      -- a list is ended and handed back by the client, which this thread is
      rcases filling_of_advances hadvance hbefore with hafter | rfl | rfl
      · exact hafter
      · have hending : workAt l mover.phases = some .ending := by simp [hphases]
        exact absurd (hclient.trans (hs.eq_client hi hending rfl).symm) hji
      · have hhandingBack : workAt l mover.phases = some .handingBack := by simp [hphases]
        exact absurd (hclient.trans (hs.eq_client hi hhandingBack rfl).symm) hji
    · rw [(rest_of_ne_advance hmove h).1]
      exact hbefore

theorem System.Wakeful.plain_of_worker {thread : Thread α L} (hi : s.threads[i]? = some thread)
    (hworker : thread.isWorker = true) : Plain true thread.phases := by
  have hplain := (hs.swept i thread hi).plain_of_worker hworker
  rwa [hworker] at hplain

/-- While a batch is handed over and not announced, the client does nothing but announce it. -/
theorem System.Wakeful.signals (h : s.step? client move = some s') (hl : pending = some l) :
    move = .advance ∧ s.noteHandover client pending move = none ∧ s'.epoch ≠ s.epoch := by
  obtain ⟨thread, outer, hi, hphases⟩ := hs.signalling l hl
  cases move with
  | advance =>
      refine ⟨rfl, noteHandover_advance hi hphases, ?_⟩
      obtain ⟨thread₀, phase, outer₀, next, s₁, hi₀, hphases₀, hadvance, rfl⟩ := step_advance h
      obtain rfl := Option.some.inj (hi₀.symm.trans hi)
      rw [hphases] at hphases₀
      cases hphases₀
      cases hadvance
      rw [settle_eq]
      exact Nat.succ_ne_self s.epoch
  | use operation =>
      obtain ⟨thread₀, hi₀, _, ⟨hnil, _⟩ | ⟨_, _, _, _, hrunning⟩⟩ := step_use h <;>
        obtain rfl := Option.some.inj (hi₀.symm.trans hi)
      · cases hphases.symm.trans hnil
      · cases hphases.symm.trans hrunning
  | endJob panicked =>
      obtain ⟨thread₀, _, _, _, _, hi₀, hrunning, _⟩ := step_endJob h
      obtain rfl := Option.some.inj (hi₀.symm.trans hi)
      cases hphases.symm.trans hrunning
  | endCallback panicked =>
      obtain ⟨thread₀, _, _, _, hi₀, hcalling, _⟩ := step_endCallback h
      obtain rfl := Option.some.inj (hi₀.symm.trans hi)
      cases hphases.symm.trans hcalling

theorem System.Wakeful.signalling_kept (h : s.step? i move = some s') (hne : client ≠ i) (hl : pending = some l) :
    ∃ thread outer, s'.threads[client]? = some thread ∧ thread.phases = .signalling :: outer := by
  obtain ⟨thread, outer, hthread, hphases⟩ := hs.signalling l hl
  obtain ⟨thread', hthread'⟩ := exists_thread_of_step h hthread
  obtain ⟨before, hbefore, _, hstirred⟩ := thread_of_step h hthread'
  obtain rfl := Option.some.inj (hbefore.symm.trans hthread)
  have hstirred := hstirred hne
  rw [hphases] at hstirred
  refine ⟨thread', outer, hthread', ?_⟩
  generalize thread'.phases = phases' at hstirred
  cases hstirred
  rfl

theorem System.Wakeful.signalling_step (h : s.step? i move = some s')
    (hl : s.noteHandover i pending move = some l) :
    ∃ thread outer, s'.threads[client]? = some thread ∧ thread.phases = .signalling :: outer := by
  obtain ⟨thread, hi, _⟩ := Option.bind_eq_some_iff.mp h
  cases hworker : thread.isWorker with
  | true =>
      have hplain := hs.plain_of_worker hi hworker
      rw [noteHandover_of_worker hi hplain] at hl
      refine hs.signalling_kept h ?_ hl
      rintro rfl
      obtain ⟨thread₀, outer, hi₀, hphases⟩ := hs.signalling l hl
      obtain rfl := Option.some.inj (hi₀.symm.trans hi)
      rw [hphases] at hplain
      cases hplain with
      | loop hloop => cases hloop
      | job hjob => cases hjob
  | false =>
      obtain rfl := hs.onlyClient i thread hi hworker
      cases hpending : pending with
      | some l' =>
          rw [(hs.signals h hpending).2.1] at hl
          cases hl
      | none =>
          have hmove : move = .advance := by
            by_contra hmove
            rw [noteHandover_of_ne_advance hmove, hpending] at hl
            cases hl
          subst hmove
          obtain ⟨thread₀, phase, outer, next, s₁, hi₀, hphases, hadvance, rfl⟩ := step_advance h
          rw [noteHandover_advance hi₀ hphases, hpending] at hl
          cases hadvance
          case handOver list hjobs =>
            refine ⟨_, outer, ?_, place_phases outer (.become .signalling) thread₀⟩
            rw [settle_eq, Array.getElem?_modify, if_pos rfl]
            exact congrArg _ hi₀
          all_goals simp_all

theorem System.Wakeful.noteHandover_kept (h : s.step? i move = some s') (hepoch : s'.epoch = s.epoch)
    (hl : pending = some l) : s.noteHandover i pending move = some l := by
  obtain ⟨thread, hi, _⟩ := Option.bind_eq_some_iff.mp h
  cases hworker : thread.isWorker with
  | true => rw [noteHandover_of_worker hi (hs.plain_of_worker hi hworker), hl]
  | false =>
      obtain rfl := hs.onlyClient i thread hi hworker
      exact absurd hepoch (hs.signals h hl).2.2

/-- What a worker has found at a list stays so until there is a signal. -/
theorem System.Wakeful.clear_step (h : s.step? i move = some s') (hepoch : s'.epoch = s.epoch)
    (hclear : s.Cleared pending l) : s'.Cleared (s.noteHandover i pending move) l := by
  intro hdraining
  have hkept (hbefore : (s.lists.get l).queue = [] ∨ pending = some l)
      (hqueue : (s.lists.get l).queue = [] → (s'.lists.get l).queue = []) :
      (s'.lists.get l).queue = [] ∨ s.noteHandover i pending move = some l :=
    hbefore.imp hqueue (hs.noteHandover_kept h hepoch)
  by_cases hmove : move = .advance
  · subst hmove
    obtain ⟨thread, phase, outer, next, s₁, hi, hphases, hadvance, rfl⟩ := step_advance h
    rw [settle_eq] at hdraining hkept ⊢
    rcases draining_of_advances hadvance hdraining with ⟨job, rfl⟩ | ⟨rfl, hjobs⟩ | ⟨hbefore, hqueue⟩
    · -- jobs are put into a list only while it is filled
      have hfilling := hs.filling i thread l (.pushing job) hi (by simp [hphases]) rfl
      cases hadvance
      simp_all
    · right
      rw [noteHandover_advance hi hphases]
      simp [hjobs]
    · exact hkept (hclear hbefore) hqueue
  · have hlists := (rest_of_ne_advance hmove h).1
    rw [hlists] at hdraining hkept ⊢
    exact hkept (hclear hdraining) id

theorem System.Wakeful.cleared_step (h : s.step? i move = some s') (hp : s'.InPhase j p)
    (he : p.seen? = some s'.epoch) (hl : p.HasPassed l) : s'.Cleared (s.noteHandover i pending move) l := by
  have hepoch : s'.epoch = s.epoch := by
    rcases seen_of_step h hp he with ⟨before, hbefore, he⟩ | ⟨_, he⟩
    · exact Nat.le_antisymm (hs.timely.seen_le j before _ hbefore he) (epoch_le_of_step h)
    · exact he
  refine hs.clear_step h hepoch ?_
  rw [hepoch] at he
  cases origin_of_step h hp with
  | kept hp => exact hs.cleared j p l hp he hl
  | roused seen hidle hphase =>
      subst hphase
      exact hs.cleared j (.idle seen) l hidle he trivial
  | woken list hp hphase => subst hphase; cases he
  | entered hentry => rw [seen?_of_isEntry hentry] at he; cases he
  | advanced hi isWorker before next s₁ hbefore hadvance hfresh hepoch hexecuting =>
      rcases cleared_of_fresh hadvance hfresh he hl (hs.accounted l) with ⟨hseen, hpassed⟩ | hclear
      · exact hs.cleared i before l hbefore hseen hpassed
      · exact fun hdraining => .inl (hclear hdraining)

/-- A signal reaches every worker that is asleep. -/
theorem System.Wakeful.epoch_eq_of_asleep (hrule : s.UsesLists i move) (h : s.step? i move = some s') {seen : Nat}
    (hp : s'.InPhase j (.idle seen)) : s'.epoch = s.epoch := by
  by_contra hepoch
  have hmove : move = .advance := by
    by_contra hmove
    exact hepoch (rest_of_ne_advance hmove h).2
  subst hmove
  obtain ⟨thread', hj, hmem⟩ := hp
  obtain ⟨hworker, hphases'⟩ := (hs.swept.step hrule h j thread' hj).of_idle hmem
  obtain ⟨thread, hthread, hkind, _⟩ := thread_of_step h hj
  obtain ⟨mover, phase, outer, next, s₁, hi, hphases, hadvance, rfl⟩ := step_advance h
  rcases epoch_of_advances hadvance with hsame | ⟨hsignals, rfl⟩
  · exact hepoch (by rw [settle_eq]; exact hsame)
  · by_cases hji : j = i
    · subst hji
      obtain rfl := Option.some.inj (hthread.symm.trans hi)
      have hplain := hs.plain_of_worker hi (hkind.trans hworker)
      rw [hphases] at hplain
      rcases hsignals with rfl | rfl <;> cases hplain <;> contradiction
    · rw [settle_eq, Array.getElem?_modify, if_neg (Ne.symm hji)] at hj
      exact phases_of_notify hj hphases'

theorem System.Wakeful.asleep_step (hrule : s.UsesLists i move) (h : s.step? i move = some s') {seen : Nat}
    (hp : s'.InPhase j (.idle seen)) : seen = s'.epoch := by
  cases origin_of_step h hp with
  | kept hbefore => rw [hs.epoch_eq_of_asleep hrule h hp]; exact hs.asleep j seen hbefore
  | roused _ _ hphase => cases hphase
  | woken _ _ hphase => cases hphase
  | entered hentry => cases hentry
  | advanced hi isWorker before next s₁ hbefore hadvance hfresh hepoch hexecuting =>
      rw [hepoch, epoch_of_idle_fresh hadvance hfresh]

theorem System.Wakeful.step (hrule : s.UsesLists i move) (h : s.step? i move = some s') :
    s'.Wakeful client (s.noteHandover i pending move) where
  swept := hs.swept.step hrule h
  onlyClient := hs.onlyClient.step h
  timely := hs.timely.step h
  accounted := hs.accounted_step hrule h
  filling _ _ _ _ := hs.filling_step hrule h
  signalling _ := hs.signalling_step h
  cleared _ _ _ := hs.cleared_step h
  asleep _ _ := hs.asleep_step hrule h

end Step

theorem wakeful_ofThreads (workers : Nat) : (System.ofThreads workers 1 : System α L).Wakeful workers none where
  swept := (inFrame_ofThreads workers).swept
  onlyClient := onlyClient_ofThreads workers
  timely := timely_ofThreads workers 1
  accounted l := ((inFrame_ofThreads workers).sound l).outstanding
  filling i thread l work hi hwork _ := by
    rcases phases_ofThreads hi with ⟨_, _, hphases⟩ | ⟨_, _, _, hphases⟩ <;> rw [hphases] at hwork <;> cases hwork
  signalling l hl := by cases hl
  cleared i p l hp he _ := by
    rw [inPhase_ofThreads hp] at he
    cases he
  asleep i seen hp := by cases inPhase_ofThreads hp

theorem System.Wakeful.run (hs : s.Wakeful client pending) (hrun : s.run? moves = some s')
    (hobeys : s.Obeys System.UsesLists moves) : s'.Wakeful client (s.unannouncedFrom pending moves) := by
  -- over the moves, from any state of the run and with what is handed over and not announced there
  induction moves generalizing s pending with
  | nil => cases hrun; exact hs
  | cons head moves ih =>
      obtain ⟨i, move⟩ := head
      rw [run?_cons] at hrun
      obtain ⟨s₁, hmove, hrun⟩ := Option.bind_eq_some_iff.mp hrun
      simp only [System.Obeys, hmove] at hobeys
      simp only [System.unannouncedFrom, hmove]
      exact ih (hs.step hobeys.1 hmove) hrun hobeys.2

theorem worker_of_run {workers : Nat} (hworkers : 0 < workers)
    (hrun : (System.ofThreads workers 1 : System α L).run? moves = some s) :
    ∃ thread, s.threads[0]? = some thread ∧ thread.isWorker = true := by
  refine run?_induction (P := fun s => ∃ thread, s.threads[0]? = some thread ∧ thread.isWorker = true)
    (fun s i move s' hs h => ?_) ?_ hrun
  · obtain ⟨thread, hthread, hworker⟩ := hs
    obtain ⟨thread', hthread'⟩ := exists_thread_of_step h hthread
    obtain ⟨before, hbefore, hkind, _⟩ := thread_of_step h hthread'
    obtain rfl := Option.some.inj (hbefore.symm.trans hthread)
    exact ⟨thread', hthread', hkind.symm.trans hworker⟩
  · refine ⟨{ isWorker := true, phases := [.checking] }, ?_, rfl⟩
    simp only [System.ofThreads, Array.getElem?_append, Array.size_replicate, Array.getElem?_replicate, hworkers,
      if_true]

/-- While jobs of a batch that was handed over are still to be taken, no worker is asleep once the workers have been
told: whatever the order in which one client fills lists and ends them and the workers look through them. -/
theorem nobody_asleep_of_usesLists {workers : Nat} (hworkers : 0 < workers)
    (hrun : (System.ofThreads workers 1).run? moves = some s)
    (hobeys : (System.ofThreads workers 1).Obeys System.UsesLists moves)
    (hstate : (s.lists.get l).state = .draining) (hqueue : (s.lists.get l).queue ≠ [])
    (hannounced : (System.ofThreads workers 1).unannounced moves ≠ some l) :
    (∃ (i : Nat) (thread : Thread α L), s.threads[i]? = some thread ∧ thread.isWorker = true) ∧
      ∀ i seen, ¬ s.InPhase i (.idle seen) := by
  have hs := (wakeful_ofThreads workers).run hrun hobeys
  refine ⟨⟨0, worker_of_run hworkers hrun⟩, fun i seen hidle => ?_⟩
  obtain rfl := hs.asleep i seen hidle
  rcases hs.cleared i _ l hidle rfl trivial hstate with hempty | hpending
  · exact hqueue hempty
  · exact hannounced hpending

instance (s : System α L) (i : Nat) (move : Move α L) : Decidable (s.UsesLists i move) :=
  match move with
  | .use operation => match operation with
      | .completeFrame => inferInstanceAs (Decidable (_ = []))
      | .add list _ | .finish list => inferInstanceAs (Decidable (_ ∧ (s.lists.get list).state = .filling))
      | .drop => inferInstanceAs (Decidable (_ ∧ False))
      | .claim | .begin _ | .wait _ | .runBatch _ | .signal => inferInstanceAs (Decidable (_ ∧ True))
  | .advance | .endJob _ | .endCallback _ => inferInstanceAs (Decidable True)

section Roused

/-- A worker finds no jobs and goes to sleep; then the client hands a job over, without the signal. -/
def sleepingMoves : List (Nat × Move Nat 1) :=
  goesOn 0 5 ++ (1, .use .claim) :: goesOn 1 2 ++ (1, .use (.add soleList ⟨7, false⟩)) :: goesOn 1 2 ++
    (1, .use (.finish soleList)) :: goesOn 1 1

def handedOverSystem (epoch : Nat) (worker client : List (Phase Nat 1)) : System Nat 1 where
  epoch := epoch
  lists := #v[{ state := .draining, queue := [⟨7, false⟩], outstanding := 1 }]
  threads := #[{ isWorker := true, phases := worker },
    { isWorker := false, phases := client, outcome := some (.done (.ok ())) }]

/-- Without the signal the worker sleeps on; with it the worker does not. -/
theorem nobody_asleep_of_usesLists_roused :
    (System.ofThreads 1 1).run? sleepingMoves = some (handedOverSystem 0 [.idle 0] [.signalling]) ∧
      (System.ofThreads 1 1).unannounced sleepingMoves = some soleList ∧
      (System.ofThreads 1 1).unannounced (sleepingMoves ++ goesOn 1 1) = none ∧
      ∀ i seen, ¬ (handedOverSystem 1 [.retiring 0] []).InPhase i (.idle seen) := by
  have hrun : (System.ofThreads 1 1).run? (sleepingMoves ++ goesOn 1 1) =
      some (handedOverSystem 1 [.retiring 0] []) := by
    with_unfolding_all rfl
  have hobeys : (System.ofThreads 1 1).Obeys System.UsesLists (sleepingMoves ++ goesOn 1 1) := by
    decide +kernel
  have hannounced : (System.ofThreads 1 1).unannounced (sleepingMoves ++ goesOn 1 1) = none := by
    with_unfolding_all rfl
  refine ⟨by with_unfolding_all rfl, by with_unfolding_all rfl, hannounced, ?_⟩
  refine (nobody_asleep_of_usesLists (l := soleList) Nat.one_pos hrun hobeys rfl (List.cons_ne_nil _ _) ?_).2
  rw [hannounced]
  exact Option.some_ne_none _ |>.symm

end Roused

end FrameEngine.Jobs
