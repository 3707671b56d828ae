import FrameEngine.Proofs.Jobs.Moves

namespace FrameEngine.Jobs

variable {α : Type} {L : Nat}

def Phase.seen? : Phase α L → Option Nat
  | .scanning seen _ | .trying seen _ | .popping seen _ | .retiring seen | .idle seen => some seen
  | _ => none

section Step

variable {s s' s₁ : System α L} {isWorker : Bool} {phase p : Phase α L} {next : Next α L} {i : Nat}

theorem epoch_le_of_advances (h : Advances s isWorker phase next s₁) : s.epoch ≤ s₁.epoch := by
  cases h with
  | signal | announceStop => exact Nat.le_succ s.epoch
  | _ => exact Nat.le_refl s.epoch

theorem not_executing_of_advances (h : Advances s isWorker phase next s₁) (hs : s.executing = false) :
    s₁.executing = false := by
  cases h with
  | stop => rfl
  | _ => exact hs

theorem seen_of_fresh {e : Nat} (h : Advances s isWorker phase next s₁) (hp : p ∈ next.fresh)
    (he : p.seen? = some e) : phase.seen? = some e ∨ phase = .readingEpoch ∧ e = s.epoch := by
  cases h <;> simp only [Next.fresh, List.mem_cons, List.not_mem_nil, or_false] at hp
  case readEpoch => subst hp; exact Or.inr ⟨rfl, (Option.some.inj he).symm⟩
  case find | pass | retire | accept | refuse | miss | sleep => subst hp; exact Or.inl he
  case pop | take | sweepWait => rcases hp with rfl | rfl <;> cases he
  case check | findDraining =>
    subst hp
    split at he <;> cases he
  all_goals subst hp; cases he

theorem executing_of_fresh (h : Advances s isWorker phase next s₁) (hp : .readingEpoch ∈ next.fresh) :
    s.executing = true := by
  cases h <;> simp only [Next.fresh, List.mem_cons, List.not_mem_nil, or_false, reduceCtorEq] at hp
  case check =>
    split at hp
    · assumption
    · cases hp
  case findDraining => split at hp <;> cases hp

theorem not_executing_of_fresh (h : Advances s isWorker phase next s₁) (hp : .announcingStop ∈ next.fresh) :
    s₁.executing = false := by
  cases h <;> simp only [Next.fresh, List.mem_cons, List.not_mem_nil, or_false, reduceCtorEq] at hp
  case check | findDraining => split at hp <;> cases hp
  case stop => rfl

theorem seen?_of_isEntry (h : p.isEntry) : p.seen? = none := by
  cases p <;> first | rfl | cases h

theorem epoch_le_of_step {move : Move α L} (h : s.step? i move = some s') : s.epoch ≤ s'.epoch := by
  cases move with
  | advance =>
      obtain ⟨_, _, _, _, s₁, _, _, hadvance, rfl⟩ := step_advance h
      have hafter := epoch_le_of_advances hadvance
      rwa [settle_eq]
  | use operation => obtain ⟨_, _, rfl, _⟩ := step_use h; exact Nat.le_refl s.epoch
  | endJob panicked => obtain ⟨_, _, _, _, _, _, _, rfl⟩ := step_endJob h; exact Nat.le_refl s.epoch
  | endCallback panicked => obtain ⟨_, _, _, _, _, _, rfl⟩ := step_endCallback h; exact Nat.le_refl s.epoch

theorem not_executing_of_step {move : Move α L} (h : s.step? i move = some s') (hs : s.executing = false) :
    s'.executing = false := by
  cases move with
  | advance =>
      obtain ⟨_, _, _, _, s₁, _, _, hadvance, rfl⟩ := step_advance h
      have hafter := not_executing_of_advances hadvance hs
      rwa [settle_eq]
  | use operation => obtain ⟨_, _, rfl, _⟩ := step_use h; exact hs
  | endJob panicked => obtain ⟨_, _, _, _, _, _, _, rfl⟩ := step_endJob h; exact hs
  | endCallback panicked => obtain ⟨_, _, _, _, _, _, rfl⟩ := step_endCallback h; exact hs

theorem seen_of_step {move : Move α L} {j e : Nat} (h : s.step? i move = some s') (hp : s'.InPhase j p)
    (he : p.seen? = some e) :
    (∃ before, s.InPhase j before ∧ before.seen? = some e) ∨ (s.InPhase j .readingEpoch ∧ e = s.epoch) := by
  cases origin_of_step h hp with
  | kept hp => exact Or.inl ⟨p, hp, he⟩
  | roused seen hidle hphase =>
      subst hphase
      exact Or.inl ⟨.idle seen, hidle, he⟩
  | woken list hp hphase => subst hphase; cases he
  | entered hentry => rw [seen?_of_isEntry hentry] at he; cases he
  | advanced hi isWorker before next s₁ hbefore hadvance hfresh hepoch hexecuting =>
      subst hi
      rcases seen_of_fresh hadvance hfresh he with he | ⟨rfl, he⟩
      · exact Or.inl ⟨before, hbefore, he⟩
      · exact Or.inr ⟨hbefore, he⟩

/-- Nobody comes to read the epoch once `executing` is cleared. -/
theorem reading_of_step {move : Move α L} {j : Nat} (h : s.step? i move = some s') (hs : s.executing = false)
    (hp : s'.InPhase j .readingEpoch) : s.InPhase j .readingEpoch := by
  cases origin_of_step h hp with
  | kept hp => exact hp
  | roused seen hp hphase => cases hphase
  | woken list hp hphase => cases hphase
  | entered hentry => cases hentry
  | advanced hi isWorker before next s₁ hbefore hadvance hfresh hepoch hexecuting =>
      cases hs.symm.trans (executing_of_fresh hadvance hfresh)

theorem announcing_of_step {move : Move α L} {j : Nat} (h : s.step? i move = some s')
    (hp : s'.InPhase j .announcingStop) : s.InPhase j .announcingStop ∨ s'.executing = false := by
  cases origin_of_step h hp with
  | kept hp => exact Or.inl hp
  | roused seen hp hphase => cases hphase
  | woken list hp hphase => cases hphase
  | entered hentry => cases hentry
  | advanced hi isWorker before next s₁ hbefore hadvance hfresh hepoch hexecuting =>
      rw [hexecuting]
      exact Or.inr (not_executing_of_fresh hadvance hfresh)

end Step

/-- What holds at all times: nobody goes by an epoch that is yet to come, and a stop is announced only
after `executing` is cleared. -/
structure System.Timely (s : System α L) : Prop where
  seen_le : ∀ i p e, s.InPhase i p → p.seen? = some e → e ≤ s.epoch
  cleared : ∀ i, s.InPhase i .announcingStop → s.executing = false

/-- What holds once a stop is announced: threads that go by the epoch of the announcement, or are about to
read it, were about to read it at `s₀` already. -/
structure System.Stops (s s₀ : System α L) (announced : Nat) : Prop where
  cleared : s.executing = false
  epoch_le : announced ≤ s.epoch
  reading : ∀ i, s.InPhase i .readingEpoch → s₀.InPhase i .readingEpoch
  late : ∀ i p e, s.InPhase i p → p.seen? = some e → announced ≤ e → s₀.InPhase i .readingEpoch

variable {s₀ s s' : System α L} {i : Nat}

theorem inPhase_ofThreads {workers clients : Nat} {p : Phase α L}
    (h : (System.ofThreads workers clients : System α L).InPhase i p) : p = .checking := by
  obtain ⟨thread, hthread, hp⟩ := h
  simp only [System.ofThreads, Array.getElem?_append, Array.getElem?_replicate, Array.size_replicate] at hthread
  grind

theorem timely_ofThreads (workers clients : Nat) : (System.ofThreads workers clients : System α L).Timely := by
  refine ⟨fun i p e hp he => ?_, fun i hp => ?_⟩
  · rw [inPhase_ofThreads hp] at he
    cases he
  · cases inPhase_ofThreads hp

theorem System.Timely.step {move : Move α L} (hs : s.Timely) (h : s.step? i move = some s') : s'.Timely := by
  refine ⟨fun j p e hp he => ?_, fun j hp => ?_⟩
  · refine Nat.le_trans ?_ (epoch_le_of_step h)
    rcases seen_of_step h hp he with ⟨before, hbefore, he⟩ | ⟨_, rfl⟩
    · exact hs.seen_le j before e hbefore he
    · exact Nat.le_refl s.epoch
  · rcases announcing_of_step h hp with hp | hcleared
    · exact not_executing_of_step h (hs.cleared j hp)
    · exact hcleared

/-- A signal that comes after `executing` is cleared reaches all but those about to read the epoch. -/
theorem System.Timely.stops {move : Move α L} (hs : s.Timely) (h : s.step? i move = some s')
    (hcleared : s.executing = false) (hepoch : s.epoch < s'.epoch) : s'.Stops s s'.epoch := by
  refine ⟨not_executing_of_step h hcleared, Nat.le_refl _, fun j hp => reading_of_step h hcleared hp,
    fun j p e hp he hle => ?_⟩
  rcases seen_of_step h hp he with ⟨before, hbefore, he⟩ | ⟨hreading, _⟩
  · have hseen := hs.seen_le j before e hbefore he
    omega
  · exact hreading

theorem System.Stops.step {announced : Nat} {move : Move α L} (hs : s.Stops s₀ announced)
    (h : s.step? i move = some s') : s'.Stops s₀ announced := by
  refine ⟨not_executing_of_step h hs.cleared, Nat.le_trans hs.epoch_le (epoch_le_of_step h),
    fun j hp => hs.reading j (reading_of_step h hs.cleared hp), fun j p e hp he hle => ?_⟩
  rcases seen_of_step h hp he with ⟨before, hbefore, he⟩ | ⟨hreading, _⟩
  · exact hs.late j before e hbefore he hle
  · exact hs.reading j hreading

def System.Announces (s s' : System α L) (i : Nat) : Prop :=
  (∃ thread outer, s.threads[i]? = some thread ∧ thread.phases = .announcingStop :: outer) ∧
    s.step? i .advance = some s'

theorem epoch_of_announces (h : s.Announces s' i) : s'.epoch = s.epoch + 1 := by
  obtain ⟨⟨thread, outer, hi, hphases⟩, hstep⟩ := h
  obtain ⟨thread', phase, outer', next, s₁, hi', hphases', hadvance, rfl⟩ := step_advance hstep
  obtain rfl := Option.some.inj (hi.symm.trans hi')
  rw [hphases] at hphases'
  cases hphases'
  cases hadvance
  rw [settle_eq]
  rfl

/-- However workers and clients move, and whatever jobs do: a worker that sleeps with the current epoch once the
stop is announced had looked at `executing` before, and had not read the epoch when the stop was announced. -/
theorem sleepers_after_stop {workers clients : Nat} {before after : List (Nat × Move α L)} {s₁ s₂ : System α L}
    (hbefore : (System.ofThreads workers clients).run? before = some s₀) (hstop : s₀.Announces s₁ i)
    (hafter : s₁.run? after = some s₂) :
    s₂.executing = false ∧ ∀ j, s₂.InPhase j (.idle s₂.epoch) → s₀.InPhase j .readingEpoch := by
  have htimely := run?_induction (P := System.Timely) (fun _ _ _ _ hs h => hs.step h)
    (timely_ofThreads workers clients) hbefore
  obtain ⟨thread, outer, hi, hphases⟩ := hstop.1
  have hcleared := htimely.cleared i ⟨thread, hi, by simp [hphases]⟩
  have hstops := htimely.stops hstop.2 hcleared (by have := epoch_of_announces hstop; omega)
  have hlater := run?_induction (P := (System.Stops · s₀ s₁.epoch)) (fun _ _ _ _ hs h => hs.step h) hstops hafter
  exact ⟨hlater.cleared, fun j hp => hlater.late j _ s₂.epoch hp rfl hlater.epoch_le⟩

section Missed

/-- A worker finds the system executing; then the client clears `executing`. -/
def clearingMoves : List (Nat × Move Unit 1) := [(0, .advance), (1, .use .drop), (1, .advance)]

def clearedSystem : System Unit 1 where
  executing := false
  lists := #v[{}]
  threads := #[{ isWorker := true, phases := [.readingEpoch] },
    { isWorker := false, phases := [.announcingStop] }]

def announcedSystem : System Unit 1 where
  executing := false
  epoch := 1
  lists := #v[{}]
  threads := #[{ isWorker := true, phases := [.readingEpoch] }, { isWorker := false, phases := [.joining 0] }]

/-- The worker reads the epoch of the announcement, finds no jobs and goes to sleep. -/
def missingMoves : List (Nat × Move Unit 1) := List.replicate 4 (0, .advance)

def hungSystem : System Unit 1 where
  executing := false
  epoch := 1
  lists := #v[{}]
  threads := #[{ isWorker := true, phases := [.idle 1] }, { isWorker := false, phases := [.joining 0] }]

theorem run_clearingMoves : (System.ofThreads 1 1).run? clearingMoves = some clearedSystem := by
  with_unfolding_all rfl

theorem announces_clearedSystem : clearedSystem.Announces announcedSystem 1 :=
  ⟨⟨_, [], rfl, rfl⟩, by with_unfolding_all rfl⟩

theorem run_missingMoves : announcedSystem.run? missingMoves = some hungSystem := by
  with_unfolding_all rfl

theorem hungSystem_stuck (i : Nat) (move : Move Unit 1) : hungSystem.step? i move = none := by
  rcases i with _ | _ | i <;> cases move <;> with_unfolding_all rfl

theorem sleepers_after_stop_missed :
    hungSystem.InPhase 0 (.idle hungSystem.epoch) ∧ clearedSystem.InPhase 0 .readingEpoch := by
  have hidle : hungSystem.InPhase 0 (.idle hungSystem.epoch) := ⟨_, rfl, List.mem_singleton.mpr rfl⟩
  exact ⟨hidle,
    (sleepers_after_stop run_clearingMoves announces_clearedSystem run_missingMoves).2 0 hidle⟩

/-- A stop can leave a worker asleep for good, and the client that joins it as well: no thread can move. -/
theorem stop_leaves_sleeper :
    (System.ofThreads 1 1).run? (clearingMoves ++ (1, .advance) :: missingMoves) = some hungSystem ∧
      hungSystem.executing = false ∧ hungSystem.InPhase 0 (.idle hungSystem.epoch) ∧
      hungSystem.InPhase 1 (.joining 0) ∧ ∀ i move, hungSystem.step? i move = none := by
  refine ⟨?_, rfl, ⟨_, rfl, List.mem_singleton.mpr rfl⟩, ⟨_, rfl, List.mem_singleton.mpr rfl⟩, hungSystem_stuck⟩
  rw [run?_append, run_clearingMoves, Option.bind_some, run?_cons, announces_clearedSystem.2, Option.bind_some,
    run_missingMoves]

end Missed

end FrameEngine.Jobs
