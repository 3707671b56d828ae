import FrameEngine.Proofs.Jobs.Sweeps

namespace FrameEngine.Jobs

variable {α : Type} {L : Nat} {s s' s₁ start : System α L} {phase : Phase α L} {outer : List (Phase α L)}
  {next : Next α L} {i client : Nat} {l : Fin L} {move : Move α L} {books : Fin L → Batch α}
  {moves : List (Nat × Move α L)} {waited : List (Fin L)} {result : Except JobError Unit}

/-- The result for lists with so many panics: the error of the first list that has any. -/
def Tells (panics : Fin L → Nat) (waited : List (Fin L)) : Except JobError Unit → Prop
  | .ok _ => ∀ l ∈ waited, panics l = 0
  | .error cause => ∃ l ∈ waited, panics l ≠ 0 ∧ cause = .panicked l (panics l) ∧
      ∀ l' ∈ waited, l' < l → panics l' = 0

section Tells

variable {panics panics' : Fin L → Nat}

theorem Tells.congr (h : Tells panics waited result) (hsame : ∀ l ∈ waited, panics' l = panics l) :
    Tells panics' waited result := by
  cases result with
  | ok _ => exact fun l hl => (hsame l hl).trans (h l hl)
  | error cause =>
      obtain ⟨l, hl, hpanics, hcause, hfirst⟩ := h
      refine ⟨l, hl, ?_, ?_, fun l' hl' hlt => (hsame l' hl').trans (hfirst l' hl' hlt)⟩
      · rwa [hsame l hl]
      · rwa [hsame l hl]

/-- A list of which nothing is told beyond that it has no panics may be counted in. -/
theorem Tells.extend (h : Tells panics waited result) {all : List (Fin L)} (hwaited : ∀ l ∈ waited, l ∈ all)
    (hall : ∀ l ∈ all, panics l ≠ 0 → l ∈ waited) : Tells panics all result := by
  cases result with
  | ok _ =>
      intro l hl
      by_contra hpanics
      exact hpanics (h l (hall l hl hpanics))
  | error cause =>
      obtain ⟨l, hl, hpanics, hcause, hfirst⟩ := h
      refine ⟨l, hwaited l hl, hpanics, hcause, fun l' hl' hlt => ?_⟩
      by_contra hother
      exact hother (hfirst l' (hall l' hl' hother) hlt)

theorem Tells.snoc (h : Tells panics waited result) (hlast : ∀ l' ∈ waited, l' < l) :
    Tells panics (waited ++ [l]) (firstError result (verdict l (panics l))) := by
  cases result with
  | ok _ =>
      have hnone : ∀ l' ∈ waited, panics l' = 0 := h
      by_cases hl : panics l = 0
      · rw [firstError, verdict, if_pos hl]
        intro l' hl'
        rcases List.mem_append.mp hl' with hl' | hl'
        · exact hnone l' hl'
        · rwa [List.mem_singleton.mp hl']
      · rw [firstError, verdict, if_neg hl]
        refine ⟨l, List.mem_append_right _ (List.mem_singleton_self l), hl, rfl, fun l' hl' hlt => ?_⟩
        rcases List.mem_append.mp hl' with hl' | hl'
        · exact hnone l' hl'
        · exact absurd (List.mem_singleton.mp hl') (Fin.ne_of_lt hlt)
  | error cause =>
      obtain ⟨first, hfirst, hpanics, hcause, hbefore⟩ := h
      refine ⟨first, List.mem_append_left _ hfirst, hpanics, hcause, fun l' hl' hlt => ?_⟩
      rcases List.mem_append.mp hl' with hl' | hl'
      · exact hbefore l' hl' hlt
      · rw [List.mem_singleton.mp hl'] at hlt
        exact absurd (hlast first hfirst) (Nat.lt_asymm hlt)

end Tells

def System.foundDraining? (s : System α L) : List (Phase α L) → Option (Fin L)
  | .sweeping list _ :: _ =>
      if h : list < L then if (s.lists.get ⟨list, h⟩).state = .draining then some ⟨list, h⟩ else none else none
  | _ => none

def System.waitBegun? (s : System α L) (i : Nat) : Move α L → Option (Fin L)
  | .advance => s.foundDraining? (s.threads[i]?.elim [] (·.phases))
  | _ => none

def System.waitsBegun (s : System α L) : List (Nat × Move α L) → List (Fin L)
  | [] => []
  | (i, move) :: moves => match s.step? i move with
      | none => []
      | some s' => (s.waitBegun? i move).toList ++ s'.waitsBegun moves

theorem foundDraining?_sweeping (s : System α L) (list : Nat) (result : Except JobError Unit)
    (outer : List (Phase α L)) : s.foundDraining? (.sweeping list result :: outer) =
      if h : list < L then if (s.lists.get ⟨list, h⟩).state = .draining then some ⟨list, h⟩ else none else none :=
  rfl

theorem draining_of_foundDraining? {phases : List (Phase α L)} (h : s.foundDraining? phases = some l) :
    (s.lists.get l).state = .draining := by
  unfold System.foundDraining? at h
  split at h
  · split at h
    · split at h
      next hdraining =>
        cases h
        exact hdraining
      · cases h
    · cases h
  · cases h

theorem Phase.WaitsFor.foundDraining? (h : phase.WaitsFor l) (s : System α L) (outer : List (Phase α L)) :
    s.foundDraining? (phase :: outer) = none := by
  cases phase <;> first | rfl | cases h

theorem Plain.foundDraining? {isWorker : Bool} {phases : List (Phase α L)} (h : Plain isWorker phases)
    (s : System α L) : s.foundDraining? phases = none := by
  cases h with
  | @loop phase h | @job phase h | @call phase h => cases phase <;> first | rfl | cases h
  | _ => rfl

/-- A worker leaves a list as it is, unless the list is being drained; and it does not open lists. -/
theorem Advances.lists_of_worker (h : Advances s true phase next s₁) (hplain : Plain true (phase :: outer))
    (hsound : (s.desk l).Sound)
    (hfits : ∀ work, workAt l (phase :: outer) = some work → work.Fits (s.lists.get l).state) :
    s₁.lists.get l = s.lists.get l ∨ (s.lists.get l).state = .draining ∧ (s₁.lists.get l).state ≠ .filling := by
  by_cases hl : place? (phase :: outer) = some l
  · cases hplain with
    | loop hloop =>
        cases phase
        case popping seen list =>
          obtain rfl := Option.some.inj hl
          have hpopping : (s.lists.get list).state ≠ .filling := hfits .popping (by simp)
          cases h with
          | miss => exact .inl rfl
          | pop _ _ job queue hqueue =>
              refine .inr ⟨?_, by simpa [System.record] using hpopping⟩
              cases hstate : (s.lists.get list).state with
              | draining => rfl
              | filling => exact absurd hstate hpopping
              | complete =>
                  have hempty : (s.lists.get list).queue = [] := hsound.queue_of_complete hstate
                  cases hempty.symm.trans hqueue
        case trying => cases h <;> exact .inl rfl
        all_goals first | (cases hl; done) | cases hloop
    | job hjob =>
        cases phase
        case running | callingBack => cases h
        case countingPanic list =>
          obtain rfl := Option.some.inj hl
          have hdraining : (s.lists.get list).state = .draining := hfits .countingPanic (by simp)
          cases h
          exact .inr ⟨hdraining, by simp [hdraining]⟩
        case countingDown list =>
          obtain rfl := Option.some.inj hl
          have hdraining : (s.lists.get list).state = .draining := hfits .countingDown (by simp)
          cases h <;> exact .inr ⟨hdraining, by simp [hdraining]⟩
        case completing list =>
          obtain rfl := Option.some.inj hl
          have hdraining : (s.lists.get list).state = .draining := hfits .completing (by simp)
          cases h with
          | complete => exact .inr ⟨hdraining, by simp⟩
          | leaveOpen => exact .inl rfl
        all_goals cases hjob
  · exact .inl (h.elsewhere hplain hl).1

theorem lists_of_worker (hs : s.InFrame client books) (hrule : s.FrameUse i move) {thread : Thread α L}
    (hi : s.threads[i]? = some thread) (hworker : thread.isWorker = true) (h : s.step? i move = some s')
    (l : Fin L) :
    s'.lists.get l = s.lists.get l ∨ (s.lists.get l).state = .draining ∧ (s'.lists.get l).state ≠ .filling := by
  cases move with
  | advance =>
      obtain ⟨thread₀, phase, outer, next, s₁, hi₀, hphases, hadvance, rfl⟩ := step_advance h
      obtain rfl := Option.some.inj (hi₀.symm.trans hi)
      have hswept := hs.swept i thread₀ hi
      rw [hphases, hworker] at hswept
      rw [hworker] at hadvance
      rw [settle_eq]
      cases hswept with
      | plain hplain =>
          exact hadvance.lists_of_worker hplain (hs.sound l) fun work hwork =>
            fits_of_work hs.sound hi (by rw [hphases, hwork])
  | use operation =>
      obtain ⟨thread₀, hi₀, _, hclient, _⟩ := step_use_of_rest h hrule.phases_nil
      obtain rfl := Option.some.inj (hi₀.symm.trans hi)
      cases hworker.symm.trans hclient
  | endJob panicked =>
      obtain ⟨_, _, _, _, _, _, _, rfl⟩ := step_endJob h
      rw [settle_eq]
      exact .inl rfl
  | endCallback panicked =>
      obtain ⟨_, _, _, _, _, _, rfl⟩ := step_endCallback h
      rw [settle_eq]
      exact .inl rfl

/-- A wait for a list that is not being filled changes nothing, and returns the list's panics once it is complete. -/
theorem Advances.wait_ended (h : Advances s false phase next s₁) (hwaits : phase.WaitsFor l)
    (hended : (s.lists.get l).state ≠ .filling)
    (hfits : ∀ work, workAt l (phase :: outer) = some work → work.Fits (s.lists.get l).state) :
    s₁ = s ∧ ((∃ phase', next = .become phase' ∧ phase'.WaitsFor l) ∨
      next = .reply (.done (verdict l (s.lists.get l).panicked)) ∧ (s.lists.get l).state = .complete) := by
  cases phase <;> first | (cases hwaits; done) | skip
  case inspecting | blocking => cases hwaits; cases h <;> exact ⟨rfl, .inl ⟨_, rfl, rfl⟩⟩
  case weighing => cases hwaits; exact absurd (hfits .weighing (by simp)) hended
  case handingBack => cases hwaits; exact absurd (hfits .handingBack (by simp)) hended
  case judging =>
    cases hwaits
    cases h
    exact ⟨rfl, .inr ⟨rfl, hfits .judging (by simp)⟩⟩
  case blocked => cases h

/-- How far a sweep has come that has waited for some lists: none of the lists it is through with is being drained, and
its result tells of those it has waited for. -/
inductive Progress (s : System α L) (waited : List (Fin L)) : List (Phase α L) → Prop
  | between (list result) (htells : Tells (fun l => (s.lists.get l).panicked) waited result)
      (hwaited : ∀ l ∈ waited, l.val < list)
      (hpassed : ∀ l : Fin L, l.val < list → (s.lists.get l).state ≠ .draining) :
      Progress s waited [.sweeping list result]
  | waiting {phase : Phase α L} {l : Fin L} (hwaits : phase.WaitsFor l) (result) (earlier)
      (hlast : waited = earlier ++ [l]) (htells : Tells (fun l => (s.lists.get l).panicked) earlier result)
      (hearlier : ∀ l' ∈ earlier, l' < l) (hpassed : ∀ l' < l, (s.lists.get l').state ≠ .draining) :
      Progress s waited [phase, .sweeping (l.val + 1) result]

theorem Progress.kept {phases phases' : List (Phase α L)} (h : Progress s waited phases)
    (hstirred : Stirred phases phases')
    (hlists : ∀ l, (s.lists.get l).state ≠ .draining → s'.lists.get l = s.lists.get l) :
    Progress s' waited phases' := by
  cases h with
  | between list result htells hwaited hpassed =>
      cases hstirred
      refine .between list result (htells.congr fun l hl => ?_) hwaited fun l hl => ?_
      · rw [hlists l (hpassed l (hwaited l hl))]
      · rw [hlists l (hpassed l hl)]
        exact hpassed l hl
  | waiting hwaits result earlier hlast htells hearlier hpassed =>
      have hsame : ∀ l ∈ earlier, (s'.lists.get l).panicked = (s.lists.get l).panicked := fun l hl => by
        rw [hlists l (hpassed l (hearlier l hl))]
      have htells' := htells.congr hsame
      have hpassed' : ∀ l' < _, (s'.lists.get l').state ≠ .draining := fun l' hl' => by
        rw [hlists l' (hpassed l' hl')]
        exact hpassed l' hl'
      cases hstirred with
      | same => exact .waiting hwaits result earlier hlast htells' hearlier hpassed'
      | roused => cases hwaits
      | woken list =>
          have hwoken : Phase.WaitsFor _ (.blocking list : Phase α L) := hwaits
          exact .waiting hwoken result earlier hlast htells' hearlier hpassed'

theorem progress_succ (htells : Tells (fun l => (s.lists.get l).panicked) waited result)
    (hwaited : ∀ l' ∈ waited, l' ≤ l) (hpassed : ∀ l' < l, (s.lists.get l').state ≠ .draining)
    (hl : (s.lists.get l).state ≠ .draining) : Progress s waited [.sweeping (l.val + 1) result] := by
  refine .between _ _ htells (fun l' hl' => Nat.lt_succ_of_le (hwaited l' hl')) fun l' hl' => ?_
  rcases Nat.lt_succ_iff_lt_or_eq.mp hl' with hl' | hl'
  · exact hpassed l' hl'
  · rwa [Fin.ext hl']

theorem Progress.advance (h : Progress s waited (phase :: outer)) (hadvance : Advances s false phase next s₁)
    (hended : ∀ l ∈ waited, (s.lists.get l).state ≠ .filling)
    (hfits : ∀ l work, workAt l (phase :: outer) = some work → work.Fits (s.lists.get l).state) :
    s₁ = s ∧ (Progress s (waited ++ (s.foundDraining? (phase :: outer)).toList) (next.phases outer) ∨
      next.phases outer = []) := by
  cases h with
  | between list result htells hwaited hpassed =>
      rw [foundDraining?_sweeping]
      cases hadvance with
      | sweepWait _ _ hlt hdraining =>
          have hwaits : Phase.WaitsFor ⟨list, hlt⟩ (.inspecting ⟨list, hlt⟩ : Phase α L) := rfl
          rw [dif_pos hlt, if_pos hdraining]
          exact ⟨rfl, .inl (.waiting hwaits result waited rfl htells hwaited hpassed)⟩
      | sweepNext _ _ hlt hother =>
          rw [dif_pos hlt, if_neg hother, Option.toList_none, List.append_nil]
          exact ⟨rfl, .inl (progress_succ htells (fun l hl => Nat.le_of_lt (hwaited l hl)) hpassed hother)⟩
      | sweepEnd => exact ⟨rfl, .inr (by rw [Next.phases, deliver_nil])⟩
  | @waiting _ l hwaits result earlier hlast htells hearlier hpassed =>
      have hmem : l ∈ waited := by
        rw [hlast]
        exact List.mem_append_right _ (List.mem_singleton_self l)
      rw [hwaits.foundDraining?, Option.toList_none, List.append_nil]
      obtain ⟨rfl, ⟨phase', rfl, hwaits'⟩ | ⟨rfl, hcomplete⟩⟩ :=
        hadvance.wait_ended hwaits (hended l hmem) (hfits l)
      · exact ⟨rfl, .inl (.waiting hwaits' result earlier hlast htells hearlier hpassed)⟩
      · refine ⟨rfl, .inl ?_⟩
        rw [Next.phases, deliver_sweeping, hlast]
        refine progress_succ (htells.snoc hearlier) (fun l' hl' => ?_) hpassed (by simp [hcomplete])
        rcases List.mem_append.mp hl' with hl' | hl'
        · exact Nat.le_of_lt (hearlier l' hl')
        · exact (congrArg Fin.val (List.mem_singleton.mp hl')).le

/-- A sweep that was begun at `start`: only lists that were being drained then have changed, and only these has it
waited for. -/
structure Sweep (start s : System α L) (client : Nat) (waited : List (Fin L)) : Prop where
  kept : ∀ l, (start.lists.get l).state ≠ .draining → s.lists.get l = start.lists.get l
  ended : ∀ l, (start.lists.get l).state = .draining → (s.lists.get l).state ≠ .filling
  found : ∀ l ∈ waited, (start.lists.get l).state = .draining
  progress : ∃ thread, s.threads[client]? = some thread ∧ thread.isWorker = false ∧ Progress s waited thread.phases

def System.Rests (s : System α L) (client : Nat) : Prop :=
  ∃ thread, s.threads[client]? = some thread ∧ thread.isWorker = false ∧ thread.phases = []

theorem Sweep.step_worker (hs : s.InFrame client books) (hsweep : Sweep start s client waited)
    (hrule : s.FrameUse i move) (h : s.step? i move = some s') {thread : Thread α L}
    (hi : s.threads[i]? = some thread) (hworker : thread.isWorker = true) : Sweep start s' client waited := by
  have hlists := lists_of_worker hs hrule hi hworker h
  have hsame : ∀ l, (s.lists.get l).state ≠ .draining → s'.lists.get l = s.lists.get l :=
    fun l hl => (hlists l).resolve_right fun hdraining => hl hdraining.1
  obtain ⟨own, hown, hclient, hprogress⟩ := hsweep.progress
  obtain ⟨own', hown'⟩ := exists_thread_of_step h hown
  obtain ⟨before, hbefore, hkind, hstirred⟩ := thread_of_step h hown'
  obtain rfl := Option.some.inj (hbefore.symm.trans hown)
  have hne : client ≠ i := by
    rintro rfl
    rw [hi] at hown
    cases hown
    cases hworker.symm.trans hclient
  refine ⟨fun l hl => ?_, fun l hl => ?_, hsweep.found, own', hown', hkind.symm.trans hclient,
    hprogress.kept (hstirred hne) hsame⟩
  · have hkept := hsweep.kept l hl
    rw [hsame l (by rw [hkept]; exact hl), hkept]
  · rcases hlists l with hl' | ⟨_, hl'⟩
    · rw [hl']
      exact hsweep.ended l hl
    · exact hl'

theorem Sweep.goOn (hsweep : Sweep start s client waited) (hlists : s'.lists = s.lists) {waited' : List (Fin L)}
    (hfound : ∀ l ∈ waited', l ∈ waited ∨ (s.lists.get l).state = .draining) {thread : Thread α L}
    (hi : s'.threads[client]? = some thread) (hworker : thread.isWorker = false)
    (hprogress : Progress s' waited' thread.phases) : Sweep start s' client waited' where
  kept l hl := by rw [hlists, hsweep.kept l hl]
  ended l hl := by rw [hlists]; exact hsweep.ended l hl
  found l hl := by
    refine (hfound l hl).elim (hsweep.found l) fun hdraining => ?_
    by_contra hother
    rw [hsweep.kept l hother] at hdraining
    exact hother hdraining
  progress := ⟨thread, hi, hworker, hprogress⟩

theorem Sweep.step_client (hs : s.InFrame client books) (hsweep : Sweep start s client waited)
    (h : s.step? client .advance = some s') :
    Sweep start s' client (waited ++ (s.waitBegun? client .advance).toList) ∨ s'.Rests client := by
  obtain ⟨thread, hi, hclient, hprogress⟩ := hsweep.progress
  obtain ⟨thread', hi'⟩ := exists_thread_of_step h hi
  obtain ⟨phase, outer, next, s₁, stirred, hphases, hadvance, rfl, rfl⟩ := thread_of_advance h hi hi'
  rw [hclient] at hadvance
  rw [hphases] at hprogress
  obtain ⟨rfl, hnext⟩ := hprogress.advance hadvance (fun l hl => hsweep.ended l (hsweep.found l hl))
    fun l work hwork => fits_of_work hs.sound hi (by rw [hphases, hwork])
  have hworker : (next.place outer { thread with phases := stirred }).isWorker = false := by
    rw [place_isWorker]
    exact hclient
  have hplaced := place_phases outer next { thread with phases := stirred }
  have hsettled : (s₁.settle client outer next).lists = s₁.lists := by rw [settle_eq]
  have hbegun : s₁.waitBegun? client .advance = s₁.foundDraining? (phase :: outer) := by
    rw [System.waitBegun?, hi, Option.elim_some, hphases]
  rw [hbegun]
  refine hnext.imp (fun hprogress' => ?_) fun hnil => ⟨_, hi', hworker, hplaced.trans hnil⟩
  refine hsweep.goOn hsettled (fun l hl => ?_) hi' hworker ?_
  · refine (List.mem_append.mp hl).imp_right fun hl => ?_
    exact draining_of_foundDraining? (Option.mem_toList.mp hl)
  · rw [hplaced]
    exact hprogress'.kept (.same _) fun l _ => by rw [hsettled]

theorem Swept.isJob_eq_false (h : Swept false (phase :: outer)) : phase.isJob = false := by
  cases h with
  | plain hplain =>
      cases hplain with
      | call hcall => cases phase <;> first | rfl | cases hcall
      | _ => rfl
  | sweep => rfl
  | wait hwaits => cases phase <;> first | rfl | cases hwaits

theorem advance_of_client (hs : s.AllSwept) {thread : Thread α L} (hi : s.threads[i]? = some thread)
    (hclient : thread.isWorker = false) (huse : ∀ operation, move ≠ .use operation)
    (h : s.step? i move = some s') : move = .advance := by
  have hswept := hs i thread hi
  rw [hclient] at hswept
  cases move with
  | advance => rfl
  | use operation => exact absurd rfl (huse operation)
  | endJob panicked =>
      obtain ⟨thread₀, _, _, _, _, hi₀, hphases, _⟩ := step_endJob h
      obtain rfl := Option.some.inj (hi₀.symm.trans hi)
      rw [hphases] at hswept
      cases hswept.isJob_eq_false
  | endCallback panicked =>
      obtain ⟨thread₀, _, _, _, hi₀, hphases, _⟩ := step_endCallback h
      obtain rfl := Option.some.inj (hi₀.symm.trans hi)
      rw [hphases] at hswept
      cases hswept.isJob_eq_false

theorem System.Rests.step (hrests : s.Rests client) (hs : s.AllSwept)
    (huse : i = client → ∀ operation, move ≠ .use operation) (h : s.step? i move = some s') : s'.Rests client := by
  obtain ⟨thread, hthread, hclient, hphases⟩ := hrests
  obtain ⟨thread', hthread'⟩ := exists_thread_of_step h hthread
  obtain ⟨before, hbefore, hworker, hstirred⟩ := thread_of_step h hthread'
  obtain rfl := Option.some.inj (hbefore.symm.trans hthread)
  refine ⟨thread', hthread', hworker.symm.trans hclient, ?_⟩
  by_cases hi : client = i
  · subst hi
    obtain rfl := advance_of_client hs hthread hclient (huse rfl) h
    obtain ⟨thread₀, phase, outer, _, _, hi₀, hphases₀, _⟩ := step_advance h
    obtain rfl := Option.some.inj (hi₀.symm.trans hthread)
    cases hphases₀.symm.trans hphases
  · have hkept := hstirred hi
    rw [hphases] at hkept
    generalize thread'.phases = phases' at hkept ⊢
    cases hkept
    rfl

theorem sweep_step (hs : s.InFrame client books) (hsweep : Sweep start s client waited ∨ s.Rests client)
    (hrule : s.FrameUse i move) (huse : i = client → ∀ operation, move ≠ .use operation)
    (h : s.step? i move = some s') :
    Sweep start s' client (waited ++ (s.waitBegun? i move).toList) ∨ s'.Rests client := by
  rcases hsweep with hsweep | hrests
  · obtain ⟨thread, hi, _⟩ := Option.bind_eq_some_iff.mp h
    cases hworker : thread.isWorker with
    | true =>
        have hplain := (hs.swept i thread hi).plain_of_worker hworker
        have hbegun : s.waitBegun? i move = none := by
          cases move with
          | advance => rw [System.waitBegun?, hi, Option.elim_some, hplain.foundDraining?]
          | _ => rfl
        rw [hbegun, Option.toList_none, List.append_nil]
        exact .inl (hsweep.step_worker hs hrule h hi hworker)
    | false =>
        obtain rfl := hs.onlyClient i thread hi hworker
        obtain rfl := advance_of_client hs.swept hi hworker (huse rfl) h
        exact hsweep.step_client hs h
  · exact .inr (hrests.step hs.swept huse h)

theorem sweep_run (hs : s.InFrame client books) (hsweep : Sweep start s client waited ∨ s.Rests client)
    (hrun : s.run? moves = some s') (hobeys : s.Obeys System.FrameUse moves)
    (hcalls : ∀ operation, (client, .use operation) ∉ moves) :
    Sweep start s' client (waited ++ s.waitsBegun moves) ∨ s'.Rests client := by
  -- over the moves, with any lists waited for before them
  induction moves generalizing s books waited with
  | nil =>
      cases hrun
      rwa [System.waitsBegun, List.append_nil]
  | cons head moves ih =>
      obtain ⟨i, move⟩ := head
      rw [run?_cons] at hrun
      obtain ⟨s₁, hmove, hrun⟩ := Option.bind_eq_some_iff.mp hrun
      simp only [System.Obeys, hmove] at hobeys
      have hhead : i = client → ∀ operation, move ≠ .use operation := by
        rintro rfl operation rfl
        exact hcalls operation List.mem_cons_self
      have hnext := sweep_step hs hsweep hobeys.1 hhead hmove
      simp only [System.waitsBegun, hmove]
      rw [← List.append_assoc]
      exact ih (hs.step hobeys.1 hmove) hnext hrun hobeys.2 fun operation hm =>
        hcalls operation (List.mem_cons_of_mem _ hm)

theorem obeys_append {rule : System α L → Nat → Move α L → Prop} {more : List (Nat × Move α L)}
    (hobeys : s.Obeys rule (moves ++ more)) (hrun : s.run? moves = some s') :
    s.Obeys rule moves ∧ s'.Obeys rule more := by
  induction moves generalizing s with
  | nil =>
      cases hrun
      exact ⟨trivial, hobeys⟩
  | cons head moves ih =>
      obtain ⟨i, move⟩ := head
      rw [run?_cons] at hrun
      obtain ⟨s₁, hmove, hrun⟩ := Option.bind_eq_some_iff.mp hrun
      simp only [List.cons_append, System.Obeys, hmove] at hobeys ⊢
      obtain ⟨hmoves, hmore⟩ := ih hobeys.2 hrun
      exact ⟨⟨hobeys.1, hmoves⟩, hmore⟩

structure System.EndsSweep (s s' : System α L) (i : Nat) (result : Except JobError Unit) : Prop where
  sweeps : ∃ (thread : Thread α L) (list : Nat) (found : Except JobError Unit),
    s.threads[i]? = some thread ∧ thread.phases = [.sweeping list found]
  step : s.step? i .advance = some s'
  returns : ∃ (thread : Thread α L),
    s'.threads[i]? = some thread ∧ thread.phases = [] ∧ thread.outcome = some (.done result)

theorem Sweep.complete (hsweep : Sweep start s client waited) (hpassed : (s.lists.get l).state ≠ .draining)
    (hl : (start.lists.get l).state ≠ .filling) : (s.lists.get l).state = .complete := by
  cases hstate : (start.lists.get l).state with
  | filling => exact absurd hstate hl
  | complete => rw [hsweep.kept l (by simp [hstate]), hstate]
  | draining =>
      cases hnow : (s.lists.get l).state with
      | complete => rfl
      | filling => exact absurd hnow (hsweep.ended l hstate)
      | draining => exact absurd hnow hpassed

theorem Sweep.returns (hsweep : Sweep start s client waited ∨ s.Rests client)
    (hends : s.EndsSweep s' client result) : Sweep start s client waited ∧ s'.lists = s.lists ∧
      (∀ l, (s.lists.get l).state ≠ .draining) ∧ Tells (fun l => (s.lists.get l).panicked) waited result := by
  obtain ⟨⟨thread, list, found, hi, hphases⟩, hstep, thread', hi', hreturned, houtcome⟩ := hends
  rcases hsweep with hsweep | ⟨resting, hresting, _, hnil⟩
  · obtain ⟨own, hown, hclient, hprogress⟩ := hsweep.progress
    obtain rfl := Option.some.inj (hown.symm.trans hi)
    obtain ⟨phase, outer, next, s₁, stirred, hphases₀, hadvance, rfl, rfl⟩ := thread_of_advance hstep hi hi'
    rw [hphases] at hprogress hphases₀
    cases hphases₀
    rw [place_phases] at hreturned
    cases hprogress with
    | between _ _ htells hwaited hpassed =>
        cases hadvance with
        | sweepWait | sweepNext => cases hreturned
        | sweepEnd _ _ hge =>
            simp only [Next.place, deliver_nil, Option.some_or] at houtcome
            cases houtcome
            rw [settle_eq]
            exact ⟨hsweep, rfl, fun l => hpassed l (Nat.lt_of_lt_of_le l.isLt hge), htells⟩
  · rw [hi] at hresting
    cases hresting
    cases hnil.symm.trans hphases

theorem sweep_of_use (hrule : s.FrameUse client (.use .completeFrame))
    (h : s.step? client (.use .completeFrame) = some s') : Sweep s s' client [] := by
  obtain ⟨thread, hi, _, hclient, rfl⟩ := step_use_of_rest h hrule.phases_nil
  have hi' : (s.setPhases client (Operation.phases .completeFrame)).threads[client]? =
      some { thread with phases := [.sweeping 0 (.ok ())] } := by
    rw [threads_setPhases, Array.getElem?_modify, if_pos rfl, hi]
    rfl
  have hnone : ∀ (p : Fin L → Prop), ∀ l ∈ ([] : List (Fin L)), p l := fun _ l hl => by cases hl
  have hprogress : Progress (s.setPhases client (Operation.phases .completeFrame)) [] [.sweeping 0 (.ok ())] :=
    .between 0 (.ok ()) (hnone _) (hnone _) fun l hl => absurd hl (Nat.not_lt_zero _)
  refine ⟨fun _ _ => rfl, fun l hl => ?_, hnone _, _, hi', hclient, hprogress⟩
  have hended : (s.lists.get l).state ≠ .filling := by simp [hl]
  exact hended

/-- What a wait for all batches that began at `start` has come to, with these batches in the lists. -/
structure FrameEnd (start s' : System α L) (books : Fin L → Batch α) (waited : List (Fin L))
    (result : Except JobError Unit) : Prop where
  kept : ∀ l, (start.lists.get l).state = .filling → s'.lists.get l = start.lists.get l
  complete : ∀ l, (start.lists.get l).state ≠ .filling →
    (s'.lists.get l).state = .complete ∧ (books l).Finished
  found : ∀ l ∈ waited, (start.lists.get l).state = .draining
  tells : Tells (fun l => (books l).panics) waited result
  tells_all : (∀ l, (start.lists.get l).state = .draining → (books l).panics ≠ 0 → l ∈ waited) →
    Tells (fun l => (books l).panics) ((List.finRange L).filter fun l => (start.lists.get l).state = .draining) result

/-- What a wait for all batches comes to, however far the workers are when it begins. Lists that were being filled are
as they were; all other lists are complete, each job of their batches has run. The result is the error of the first
list with a panic among those that were found being drained; and so among all that were being drained when the wait
began, if those with a panic were found so. -/
theorem sweeps_of_frameUse {workers : Nat} {before during : List (Nat × Move α L)}
    (hcall : (System.ofThreads workers 1).run? before = some start)
    (hrun : (System.ofThreads workers 1).run? (before ++ (workers, .use .completeFrame) :: during) = some s)
    (hobeys : (System.ofThreads workers 1).Obeys System.FrameUse
      (before ++ (workers, .use .completeFrame) :: during))
    (hcalls : ∀ operation, (workers, .use operation) ∉ during) (hends : s.EndsSweep s' workers result) :
    FrameEnd start s'
      (fun l => (System.ofThreads workers 1).batch l (before ++ (workers, .use .completeFrame) :: during))
      (start.waitsBegun ((workers, .use .completeFrame) :: during)) result := by
  have hs := inFrame_of_frameUse hrun hobeys
  obtain ⟨hbefore, hafter⟩ := obeys_append hobeys hcall
  have hstart := inFrame_of_frameUse hcall hbefore
  rw [run?_append, hcall, Option.bind_some, run?_cons] at hrun
  obtain ⟨s₁, hmove, hrun⟩ := Option.bind_eq_some_iff.mp hrun
  simp only [System.Obeys, hmove] at hafter
  have hbegun : start.waitsBegun ((workers, .use .completeFrame) :: during) = s₁.waitsBegun during := by
    simp only [System.waitsBegun, hmove, System.waitBegun?, Option.toList_none, List.nil_append]
  have hrest := sweep_run (hstart.step hafter.1 hmove) (.inl (sweep_of_use hafter.1 hmove)) hrun hafter.2 hcalls
  obtain ⟨hsweep, hlists, hpassed, htells⟩ := Sweep.returns hrest hends
  rw [List.nil_append, ← hbegun] at hsweep htells
  have hcomplete := fun l => hsweep.complete (hpassed l)
  have hfinished := fun l hl => (hs.keeps l).finished (hs.sound l) (hcomplete l hl)
  have htells' := htells.congr fun l hl => ((hfinished l (by simp [hsweep.found l hl])).2).symm
  refine ⟨fun l hl => ?_, fun l hl => ⟨?_, (hfinished l hl).1⟩, hsweep.found, htells', fun hall => ?_⟩
  · rw [hlists]
    exact hsweep.kept l (by simp [hl])
  · rw [hlists]
    exact hcomplete l hl
  · refine htells'.extend (fun l hl => ?_) fun l hl => hall l ?_
    · simpa using hsweep.found l hl
    · simpa using hl

instance (s : System α L) (i : Nat) (move : Move α L) : Decidable (s.FrameUse i move) :=
  match move with
  | .use operation => match operation with
      | .completeFrame => inferInstanceAs (Decidable (_ = []))
      | .claim | .begin _ | .add _ _ | .finish _ | .wait _ | .runBatch _ | .signal | .drop =>
          inferInstanceAs (Decidable (s.SoleUse i _))
  | .advance | .endJob _ | .endCallback _ => inferInstanceAs (Decidable (s.SoleUse i _))

section Runs

def handingOverMoves : List (Nat × Move Nat 1) :=
  (1, .use .claim) :: goesOn 1 2 ++ (1, .use (.add soleList ⟨7, true⟩)) :: goesOn 1 2 ++
    (1, .use (.finish soleList)) :: goesOn 1 2

def sweepingMoves : List (Nat × Move Nat 1) :=
  goesOn 1 3 ++ goesOn 0 5 ++ (0, .endJob true) :: goesOn 0 3 ++ goesOn 1 2

def systemHandedOver : System Nat 1 where
  epoch := 1
  lists := #v[{ state := .draining, queue := [⟨7, true⟩], outstanding := 1 }]
  threads := #[{ isWorker := true, phases := [.checking] },
    { isWorker := false, phases := [], outcome := some (.done (.ok ())) }]

theorem sweeps_of_frameUse_panicked : ∃ s s' : System Nat 1, s.EndsSweep s' 1 (.error (.panicked 0 1)) ∧
    FrameEnd systemHandedOver s' (fun l => (System.ofThreads 1 1 : System Nat 1).batch l
        (handingOverMoves ++ (1, .use .completeFrame) :: sweepingMoves))
      [soleList] (.error (.panicked 0 1)) := by
  have hcall : (System.ofThreads 1 1).run? handingOverMoves = some systemHandedOver := by
    with_unfolding_all rfl
  have hrun : (System.ofThreads 1 1).run? (handingOverMoves ++ (1, .use .completeFrame) :: sweepingMoves) =
      some (systemAfterPanic 1 [.sweeping 1 (.error (.panicked 0 1))] (.ok ())) := by
    with_unfolding_all rfl
  have hobeys : (System.ofThreads 1 1).Obeys System.FrameUse
      (handingOverMoves ++ (1, .use .completeFrame) :: sweepingMoves) := by
    decide +kernel
  have hcalls : ∀ operation, (1, .use operation) ∉ sweepingMoves := by
    intro operation h
    simp [sweepingMoves, goesOn] at h
  have hends : (systemAfterPanic 1 [.sweeping 1 (.error (.panicked 0 1))] (.ok ())).EndsSweep
      (systemAfterPanic 1 [] (.error (.panicked 0 1))) 1 (.error (.panicked 0 1)) :=
    ⟨⟨_, 1, _, rfl, rfl⟩, by with_unfolding_all rfl, ⟨_, rfl, rfl, rfl⟩⟩
  have hwaited : systemHandedOver.waitsBegun ((1, .use .completeFrame) :: sweepingMoves) = [soleList] := by
    with_unfolding_all rfl
  have hend := sweeps_of_frameUse hcall hrun hobeys hcalls hends
  rw [hwaited] at hend
  exact ⟨_, _, hends, hend⟩

/-- The panic of a batch is lost when the batch is complete before the client waits for all batches. -/
theorem panic_lost_to_completion : ∃ s s' : System Nat 1,
    (System.ofThreads 1 1).run? (panickingMoves ++ (1, .use .completeFrame) :: goesOn 1 1) = some s ∧
      .ended soleList ⟨7, true⟩ true ∈ s.history ∧ s.EndsSweep s' 1 (.ok ()) := by
  refine ⟨systemAfterPanic 1 [.sweeping 1 (.ok ())] (.ok ()), systemAfterPanic 1 [] (.ok ()),
    by with_unfolding_all rfl, List.mem_cons_self, ?_⟩
  exact ⟨⟨_, 1, _, rfl, rfl⟩, by with_unfolding_all rfl, ⟨_, rfl, rfl, rfl⟩⟩

end Runs

end FrameEngine.Jobs
