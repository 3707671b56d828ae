import FrameEngine.Proofs.Slots.Protocol
import FrameEngine.Slots.Threads

namespace FrameEngine.Slots

variable {κ ρ : Type} {N : Nat}

namespace Threads

def Call.work? (c : Call κ ρ N) : Option (Work κ ρ N) :=
  match c.phase with
  | .loading slot => some (.loading slot c.key)
  | .storing slot resource => some (.storing slot c.key resource)
  | .marking slot => some (.marking slot c.key)
  | .announcing _ | .counting _ => some .counting
  | .clearing slot _ => some (.clearing slot c.key)
  | .lookingUp | .asleep _ | .woken _ | .announcingFailure _ | .aliasing _ => none

def worksOf (calls : List (Call κ ρ N)) : Multiset (Work κ ρ N) := calls.filterMap Call.work?

def Call.over (c : Call κ ρ N) (works : Multiset (Work κ ρ N)) : Multiset (Work κ ρ N) :=
  match c.work? with
  | some w => w ::ₘ works
  | none => works

def Progress.over : Progress κ ρ N → Multiset (Work κ ρ N) → Multiset (Work κ ρ N)
  | .goOn c, works => c.over works
  | .ended _, works => works

def Machine.calls (m : Machine κ ρ N) : List (Call κ ρ N) := m.threads.toList.flatMap (·.calls)

def Machine.moment (m : Machine κ ρ N) : Moment κ ρ N := ⟨m.table, worksOf m.calls⟩

theorem worksOf_append (calls more : List (Call κ ρ N)) :
    worksOf (calls ++ more) = worksOf calls + worksOf more := by
  simp only [worksOf, List.filterMap_append, Multiset.coe_add]

theorem mem_worksOf {calls : List (Call κ ρ N)} {w : Work κ ρ N} :
    w ∈ worksOf calls ↔ ∃ c ∈ calls, c.work? = some w := by
  simp only [worksOf, Multiset.mem_coe, List.mem_filterMap]

theorem worksOf_wake (thread : Thread κ ρ N) : worksOf thread.wake.calls = worksOf thread.calls := by
  rw [worksOf, worksOf, Thread.wake, List.filterMap_map]
  congr 1
  apply List.filterMap_congr
  rintro ⟨wanted, key, phase⟩ _
  cases phase <;> rfl

theorem worksOf_wakeAll (m : Machine κ ρ N) : worksOf m.wakeAll.calls = worksOf m.calls := by
  simp only [Machine.calls, Machine.wakeAll, Array.toList_map]
  induction m.threads.toList with
  | nil => rfl
  | cons thread threads ih =>
      rw [List.map_cons, List.flatMap_cons, List.flatMap_cons, worksOf_append, worksOf_append, ih,
        worksOf_wake]

/-- What a thread has changes apart from what the others have. -/
theorem flatMap_modify {β : Type} {threads : Array (Thread κ ρ N)} {i : Nat} {thread : Thread κ ρ N}
    (h : threads[i]? = some thread) (g : Thread κ ρ N → List β) : ∃ others : Multiset β,
      (threads.toList.flatMap g : Multiset β) = g thread + others ∧
      ∀ f : Thread κ ρ N → Thread κ ρ N,
        ((threads.modify i f).toList.flatMap g : Multiset β) = g (f thread) + others := by
  obtain ⟨hi, rfl⟩ := Array.getElem?_eq_some_iff.mp h
  have hsplit (before after : List (Thread κ ρ N)) (th : Thread κ ρ N) :
      ((before ++ th :: after).flatMap g : Multiset β) =
        g th + (before.flatMap g + after.flatMap g : Multiset β) := by
    rw [List.flatMap_append, List.flatMap_cons, ← Multiset.coe_add, ← Multiset.coe_add, ← Multiset.add_assoc,
      Multiset.add_comm (before.flatMap g : Multiset β), Multiset.add_assoc]
  refine ⟨(threads.toList.take i).flatMap g + (threads.toList.drop (i + 1)).flatMap g, ?_, fun f => ?_⟩
  · have hlist : threads.toList = threads.toList.take i ++ threads[i] :: threads.toList.drop (i + 1) := by
      rw [← Array.getElem_toList, ← List.drop_eq_getElem_cons, List.take_append_drop]
    conv_lhs => rw [hlist]
    exact hsplit _ _ _
  · rw [Array.toList_modify, List.modify_eq_take_cons_drop (by simpa using hi)]
    exact hsplit _ _ _

/-- What a thread does leaves the loads of the others alone. -/
theorem worksOf_modify {threads : Array (Thread κ ρ N)} {i : Nat} {thread : Thread κ ρ N}
    (h : threads[i]? = some thread) :
    ∃ others : Multiset (Work κ ρ N),
      worksOf (threads.toList.flatMap (·.calls)) = worksOf thread.calls + others ∧
      ∀ f : Thread κ ρ N → Thread κ ρ N,
        worksOf ((threads.modify i f).toList.flatMap (·.calls)) = worksOf (f thread).calls + others := by
  obtain ⟨others, hbefore, hafter⟩ := flatMap_modify h (·.calls)
  refine ⟨others.filterMap Call.work?, ?_, fun f => ?_⟩
  · exact (congrArg (Multiset.filterMap Call.work?) hbefore).trans (Multiset.filterMap_add ..)
  · exact (congrArg (Multiset.filterMap Call.work?) (hafter f)).trans (Multiset.filterMap_add ..)

theorem worksOf_cons_add (c : Call κ ρ N) (calls : List (Call κ ρ N)) (others : Multiset (Work κ ρ N)) :
    worksOf (c :: calls) + others = c.over (worksOf calls + others) := by
  rw [Call.over, worksOf, List.filterMap_cons]
  cases c.work? with
  | none => rfl
  | some w => exact Multiset.cons_add w (worksOf calls) others

variable [DecidableEq κ] {setting : Setting κ} {m m' m₁ : Machine κ ρ N} {i : Nat}

theorem over_found (c : Call κ ρ N) (slot : Fin N) (works : Multiset (Work κ ρ N)) :
    (c.found slot).over works = works := by
  rw [Call.found]
  split <;> rfl

theorem over_failed (c : Call κ ρ N) (cause : LoadError) (works : Multiset (Work κ ρ N)) :
    (c.failed setting cause).over works = works := by
  cases cause with
  | fatal cause => rfl
  | unavailable reason =>
      rw [Call.failed]
      split <;> rfl

theorem advanceCall_step {c : Call κ ρ N} {progress : Progress κ ρ N}
    (h : m.advanceCall setting c = some (progress, m₁)) (works : Multiset (Work κ ρ N)) :
    Step setting.placeholder ⟨m.table, c.over works⟩ .quiet ⟨m₁.table, progress.over works⟩ ∧
      m₁.released = m.released ∧ (m₁.threads = m.threads ∨ m₁.threads = m.wakeAll.threads) := by
  obtain ⟨wanted, key, phase⟩ := c
  cases phase with
  | lookingUp =>
      simp only [Machine.advanceCall] at h
      split at h
      · cases h
        rw [over_found]
        exact ⟨.rest _, rfl, Or.inl rfl⟩
      · cases h
        exact ⟨.rest _, rfl, Or.inl rfl⟩
      next slot hprobe =>
        cases h
        exact ⟨.reserve hprobe, rfl, Or.inl rfl⟩
      · cases h
        exact ⟨.rest _, rfl, Or.inl rfl⟩
  | woken slot =>
      simp only [Machine.advanceCall] at h
      split at h
      · cases h
        exact ⟨.rest _, rfl, Or.inl rfl⟩
      · split at h
        · cases h
          rw [over_found]
          exact ⟨.rest _, rfl, Or.inl rfl⟩
        · cases h
          exact ⟨.rest _, rfl, Or.inl rfl⟩
      · cases h
        exact ⟨.rest _, rfl, Or.inl rfl⟩
  | asleep slot | loading slot => cases h
  | storing slot resource =>
      cases h
      exact ⟨.store _ _ _ _ _, rfl, Or.inl rfl⟩
  | marking slot =>
      cases h
      exact ⟨.mark _ _ _ _, rfl, Or.inl rfl⟩
  | announcing slot =>
      cases h
      exact ⟨.rest _, rfl, Or.inr rfl⟩
  | counting slot =>
      cases h
      rw [over_found]
      exact ⟨.count _ _, rfl, Or.inl rfl⟩
  | clearing slot cause =>
      cases h
      exact ⟨.clear _ _ _ _, rfl, Or.inl rfl⟩
  | announcingFailure cause =>
      cases h
      rw [over_failed]
      exact ⟨.rest _, rfl, Or.inr rfl⟩
  | aliasing slot =>
      cases h
      exact ⟨.standIn _ _ _ _, rfl, Or.inl rfl⟩

omit [DecidableEq κ] in
theorem worksOf_settle {thread : Thread κ ρ N} (hi : m.threads[i]? = some thread) :
    ∃ others, worksOf m.calls = worksOf thread.calls + others ∧
      ∀ wanted outer progress, worksOf (m.settle i wanted outer progress).calls =
        progress.over (worksOf outer + others) := by
  obtain ⟨others, hm, hf⟩ := worksOf_modify hi
  refine ⟨others, hm, fun wanted outer progress => ?_⟩
  cases progress with
  | goOn c => exact (hf _).trans (worksOf_cons_add c outer others)
  | ended result => exact hf _

omit [DecidableEq κ] in
theorem worksOf_woken {thread : Thread κ ρ N} (hi : m.threads[i]? = some thread)
    (h : m₁.threads = m.threads ∨ m₁.threads = m.wakeAll.threads) :
    ∃ thread₁, m₁.threads[i]? = some thread₁ ∧ worksOf thread₁.calls = worksOf thread.calls ∧
      worksOf m₁.calls = worksOf m.calls := by
  rcases h with h | h
  · exact ⟨thread, by rw [h, hi], rfl, by rw [Machine.calls, h, Machine.calls]⟩
  · refine ⟨thread.wake, ?_, worksOf_wake thread, ?_⟩
    · rw [h, Machine.wakeAll, Array.getElem?_map, hi]
      rfl
    · rw [← worksOf_wakeAll m, Machine.calls, h, Machine.calls]

theorem advance_step {thread : Thread κ ρ N} {c : Call κ ρ N} {outer : List (Call κ ρ N)}
    {progress : Progress κ ρ N} (hi : m.threads[i]? = some thread) (hcalls : thread.calls = c :: outer)
    (h : m.advanceCall setting c = some (progress, m₁)) :
    Step setting.placeholder m.moment .quiet (m₁.settle i c.wanted outer progress).moment ∧
      (m₁.settle i c.wanted outer progress).released = m.released := by
  obtain ⟨hreleased, hthreads⟩ := (advanceCall_step h 0).2
  obtain ⟨thread₁, hi₁, hthread, hm₁⟩ := worksOf_woken hi hthreads
  obtain ⟨others, hm, hsettle⟩ := worksOf_settle hi₁
  have hworks : worksOf m.calls = c.over (worksOf outer + others) := by
    rw [← hm₁, hm, hthread, hcalls, worksOf_cons_add]
  have htable : (m₁.settle i c.wanted outer progress).table = m₁.table := by cases progress <;> rfl
  refine ⟨?_, ?_⟩
  · rw [Machine.moment, Machine.moment, hworks, htable, hsettle]
    exact (advanceCall_step h _).1
  · rw [← hreleased]
    cases progress <;> rfl

def Move.returned? : Move κ ρ → Option ρ
  | .finish (.ok resource) => some resource
  | _ => none

omit [DecidableEq κ] in
theorem canCall_of_guard {thread : Thread κ ρ N} {u : Unit}
    (h : (guard (Machine.canCall thread = true) : Option Unit) = some u) : Machine.canCall thread = true := by
  cases hcan : Machine.canCall thread with
  | true => rfl
  | false => rw [hcan] at h; cases h

theorem step_call {key : κ} (h : m.step? setting i (.call key) = some m') :
    ∃ thread, m.threads[i]? = some thread ∧ Machine.canCall thread = true ∧
      m' = { m with threads := m.threads.modify i fun thread =>
        { thread with calls := ⟨key, key, .lookingUp⟩ :: thread.calls } } := by
  obtain ⟨thread, hi, h⟩ := Option.bind_eq_some_iff.mp h
  obtain ⟨_, hguard, h⟩ := Option.bind_eq_some_iff.mp h
  exact ⟨thread, hi, canCall_of_guard hguard, (Option.some.inj h).symm⟩

theorem step_unload {n : Nat} (h : m.step? setting i (.unload n) = some m') :
    ∃ thread, m.threads[i]? = some thread ∧ Machine.canCall thread = true ∧
      ((∃ slot resource table, m.table.unload n = .done slot resource table ∧
        m' = { m with table := table, released := resource.toList ++ m.released }) ∨ m' = m) := by
  obtain ⟨thread, hi, h⟩ := Option.bind_eq_some_iff.mp h
  obtain ⟨_, hguard, h⟩ := Option.bind_eq_some_iff.mp h
  refine ⟨thread, hi, canCall_of_guard hguard, ?_⟩
  split at h
  next slot resource table hunload => exact Or.inl ⟨slot, resource, table, hunload, (Option.some.inj h).symm⟩
  · exact Or.inr (Option.some.inj h).symm

theorem step_advance (h : m.step? setting i .advance = some m') :
    ∃ thread c outer progress m₁, m.threads[i]? = some thread ∧ thread.calls = c :: outer ∧
      m.advanceCall setting c = some (progress, m₁) ∧ m' = m₁.settle i c.wanted outer progress := by
  obtain ⟨thread, hi, h⟩ := Option.bind_eq_some_iff.mp h
  dsimp only at h
  split at h
  · cases h
  next c outer hcalls =>
    obtain ⟨⟨progress, m₁⟩, hadvance, h⟩ := Option.bind_eq_some_iff.mp h
    exact ⟨thread, c, outer, progress, m₁, hi, hcalls, hadvance, (Option.some.inj h).symm⟩

def phaseAfter (slot : Fin N) : Except LoadError ρ → Phase ρ N
  | .ok resource => .storing slot resource
  | .error cause => .clearing slot cause

theorem step_finish {outcome : Except LoadError ρ} (h : m.step? setting i (.finish outcome) = some m') :
    ∃ thread c outer slot, m.threads[i]? = some thread ∧ thread.calls = c :: outer ∧ c.phase = .loading slot ∧
      m' = m.settle i c.wanted outer (.goOn { c with phase := phaseAfter slot outcome }) := by
  obtain ⟨thread, hi, h⟩ := Option.bind_eq_some_iff.mp h
  dsimp only at h
  split at h
  · cases h
  next c outer hcalls =>
    split at h
    next slot hphase =>
      refine ⟨thread, c, outer, slot, hi, hcalls, hphase, ?_⟩
      cases outcome <;> exact (Option.some.inj h).symm
    · cases h

/-- Every move is a step of the table. -/
theorem step_moment {move : Move κ ρ} (h : m.step? setting i move = some m') :
    ∃ effect, Step setting.placeholder m.moment effect m'.moment ∧ effect.returned? = move.returned? ∧
      m'.released = effect.released?.toList ++ m.released ∧
      ∀ slot resource, effect = .evicted slot resource →
        move = .unload slot.val ∧ ∃ table, m.table.unload slot.val = .done slot resource table := by
  cases move with
  | call key =>
      obtain ⟨thread, hi, _, rfl⟩ := step_call h
      obtain ⟨others, hm, hf⟩ := worksOf_modify hi
      refine ⟨.quiet, ?_, rfl, rfl, nofun⟩
      rw [Machine.moment, Machine.calls, hm, Machine.moment, Machine.calls, hf, worksOf_cons_add]
      exact .rest _
  | unload slot =>
      obtain ⟨_, _, _, ⟨s, resource, table, hunload, rfl⟩ | rfl⟩ := step_unload h
      · obtain ⟨rfl, _⟩ := Table.unload_done hunload
        refine ⟨.evicted s resource, .unload hunload, rfl, rfl, ?_⟩
        rintro _ _ ⟨⟩
        exact ⟨rfl, table, hunload⟩
      · exact ⟨.quiet, .rest _, rfl, rfl, nofun⟩
  | advance =>
      obtain ⟨thread, c, outer, progress, m₁, hi, hcalls, hadvance, rfl⟩ := step_advance h
      obtain ⟨hstep, hreleased⟩ := advance_step hi hcalls hadvance
      exact ⟨.quiet, hstep, rfl, hreleased, nofun⟩
  | finish outcome =>
      obtain ⟨thread, ⟨wanted, key, phase⟩, outer, slot, hi, hcalls, hphase, rfl⟩ := step_finish h
      obtain rfl := hphase
      obtain ⟨others, hm, hsettle⟩ := worksOf_settle hi
      rw [hcalls, worksOf_cons_add] at hm
      cases outcome with
      | ok resource =>
          refine ⟨.returned resource, ?_, rfl, rfl, nofun⟩
          rw [Machine.moment, Machine.moment, hm, hsettle]
          exact .succeed _ _ _ _ _
      | error cause =>
          refine ⟨.quiet, ?_, rfl, rfl, nofun⟩
          rw [Machine.moment, Machine.moment, hm, hsettle]
          exact .fail _ _ _ _

theorem run?_cons (setting : Setting κ) (m : Machine κ ρ N) (i : Nat) (move : Move κ ρ)
    (moves : List (Nat × Move κ ρ)) :
    m.run? setting ((i, move) :: moves) = (m.step? setting i move).bind fun m' => m'.run? setting moves := by
  rw [Machine.run?, List.foldlM_cons]
  rfl

def Machine.Evicts (setting : Setting κ) (m : Machine κ ρ N) (moves : List (Nat × Move κ ρ)) (slot : Fin N) :
    Prop :=
  ∃ before i after middle resource table, moves = before ++ (i, .unload slot.val) :: after ∧
    m.run? setting before = some middle ∧ middle.table.unload slot.val = .done slot resource table

theorem Machine.Evicts.cons {move : Move κ ρ} {moves : List (Nat × Move κ ρ)} {slot : Fin N}
    (hstep : m.step? setting i move = some m') (h : m'.Evicts setting moves slot) :
    m.Evicts setting ((i, move) :: moves) slot := by
  obtain ⟨before, j, after, middle, resource, table, rfl, hrun, hunload⟩ := h
  refine ⟨(i, move) :: before, j, after, middle, resource, table, rfl, ?_, hunload⟩
  rw [run?_cons, hstep]
  exact hrun

/-- Moves of threads are a run of the table, which returns, gives back and evicts what they do. -/
theorem run_moment {moves : List (Nat × Move κ ρ)} (h : m.run? setting moves = some m') :
    ∃ trace, Run setting.placeholder m.moment trace m'.moment ∧
      trace.filterMap Effect.returned? = moves.filterMap (·.2.returned?) ∧
      m'.released = (trace.filterMap Effect.released?).reverse ++ m.released ∧
      ∀ slot resource, .evicted slot resource ∈ trace → m.Evicts setting moves slot := by
  induction moves generalizing m with
  | nil =>
      cases h
      exact ⟨[], .nil _, rfl, rfl, fun slot resource hm => by cases hm⟩
  | cons move moves ih =>
      obtain ⟨i, move⟩ := move
      rw [run?_cons] at h
      obtain ⟨m₁, hstep, hrun⟩ := Option.bind_eq_some_iff.mp h
      obtain ⟨effect, hs, hreturned, hreleased, hevicted⟩ := step_moment hstep
      obtain ⟨trace, ht, htrace, hback, hall⟩ := ih hrun
      refine ⟨effect :: trace, .cons hs ht, ?_, ?_, fun slot resource hm => ?_⟩
      · rw [List.filterMap_cons, List.filterMap_cons, hreturned, htrace]
      · rw [hback, hreleased, List.filterMap_cons]
        cases effect.released? with
        | none => rfl
        | some resource => simp
      · rcases List.mem_cons.mp hm with rfl | hm
        · obtain ⟨rfl, table, hunload⟩ := hevicted slot resource rfl
          exact ⟨[], i, moves, m, resource, table, rfl, rfl, hunload⟩
        · exact (hall slot resource hm).cons hstep

def Machine.idle (threads : Nat) : Machine κ ρ N where
  table := .empty
  threads := Array.replicate threads {}

omit [DecidableEq κ] in
theorem calls_idle (threads : Nat) : (Machine.idle threads : Machine κ ρ N).calls = [] := by
  simp [Machine.calls, Machine.idle, Array.toList_replicate]

omit [DecidableEq κ] in
theorem moment_idle (threads : Nat) : (Machine.idle threads : Machine κ ρ N).moment = .start := by
  rw [Machine.moment, calls_idle]
  rfl

theorem sound_of_run {threads : Nat} {moves : List (Nat × Move κ ρ)}
    (h : (Machine.idle threads).run? setting moves = some m) : m.moment.Sound setting.placeholder := by
  obtain ⟨trace, hrun, _⟩ := run_moment h
  rw [moment_idle] at hrun
  exact (sound_start _).run hrun

section Nested

def nestedSetting : Setting Nat := ⟨"test", 9, toString⟩

def nestedMoves : List (Nat × Move Nat Nat) :=
  [(0, .call 1), (0, .advance), (0, .call 2), (0, .advance), (0, .finish (.error (.unavailable "none"))),
    (0, .advance), (0, .advance), (0, .advance), (0, .finish (.ok 90)), (0, .advance), (0, .advance),
    (0, .advance), (0, .advance), (0, .advance)]

def nestedMachine : Machine Nat Nat 2 where
  table := ⟨#v[.loading 1, .resident 9], [(2, 1), (9, 1), (1, 0)], #v[none, some 90], 1⟩
  threads := #[⟨[⟨1, 1, .loading 0⟩], []⟩]
  entered := [9, 2, 1]

theorem run_nestedMoves : (Machine.idle 1).run? nestedSetting nestedMoves = some nestedMachine := by
  with_unfolding_all rfl

def unloadedMoves : List (Nat × Move Nat Nat) :=
  nestedMoves ++
    [(0, .finish (.ok 10)), (0, .advance), (0, .advance), (0, .advance), (0, .advance), (0, .unload 1)]

def unloadedMachine : Machine Nat Nat 2 where
  table := ⟨#v[.resident 1, .empty], [(1, 0)], #v[some 10, none], 2⟩
  threads := #[⟨[], [(1, .ok 0)]⟩]
  entered := [9, 2, 1]
  released := [90]

theorem run_unloadedMoves : (Machine.idle 1).run? nestedSetting unloadedMoves = some unloadedMachine := by
  with_unfolding_all rfl

def laterMoves : List (Nat × Move Nat Nat) :=
  [(0, .finish (.ok 10)), (0, .advance), (0, .advance), (0, .advance), (0, .advance), (0, .call 3),
    (0, .advance), (0, .unload 0), (0, .call 3), (0, .advance), (0, .call 2), (0, .advance),
    (0, .finish (.error (.unavailable "none"))), (0, .advance), (0, .advance), (0, .advance), (0, .advance)]

def laterMachine : Machine Nat Nat 2 where
  table := ⟨#v[.empty, .resident 9], [(3, 1), (2, 1), (9, 1)], #v[none, some 90], 2⟩
  threads := #[⟨[], [(3, .ok 1), (3, .error (.outOfSlots "test" 2)), (1, .ok 0)]⟩]
  entered := [3, 9, 2, 1]
  released := [10]

theorem run_laterMoves : nestedMachine.run? nestedSetting laterMoves = some laterMachine := by
  with_unfolding_all rfl

def sharedMoves : List (Nat × Move Nat Nat) := [(0, .call 1), (0, .advance), (1, .call 1)]

def sharedMachine : Machine Nat Nat 2 where
  table := ⟨#v[.loading 1, .empty], [(1, 0)], #v[none, none], 0⟩
  threads := #[⟨[⟨1, 1, .loading 0⟩], []⟩, ⟨[⟨1, 1, .lookingUp⟩], []⟩]
  entered := [1]

theorem run_sharedMoves : (Machine.idle 2).run? nestedSetting sharedMoves = some sharedMachine := by
  with_unfolding_all rfl

/-- Key 2 is asked for while key 1 loads, and waits for a load of key 2 that fails. Before the call looks at the
slot again, key 3 is given the slot, and key 1 is asked for while key 3 loads. -/
def reusedMoves : List (Nat × Move Nat Nat) :=
  [(0, .call 1), (0, .advance), (1, .call 2), (1, .advance), (0, .call 2), (0, .advance),
    (1, .finish (.error (.unavailable "none"))), (1, .advance), (2, .call 3), (2, .advance), (2, .call 1),
    (2, .advance), (1, .advance)]

def reusedMachine : Machine Nat Nat 3 where
  table := ⟨#v[.loading 1, .loading 3, .empty], [(3, 1), (1, 0)], #v[none, none, none], 0⟩
  threads := #[⟨[⟨2, 2, .woken 1⟩, ⟨1, 1, .loading 0⟩], []⟩, ⟨[⟨2, 9, .lookingUp⟩], []⟩,
    ⟨[⟨1, 1, .woken 0⟩, ⟨3, 3, .loading 1⟩], []⟩]
  entered := [3, 2, 1]

theorem run_reusedMoves : (Machine.idle 3).run? nestedSetting reusedMoves = some reusedMachine := by
  with_unfolding_all rfl

/-- The calls for key 2 and key 1 go back to sleep, and the placeholder is loaded. -/
def strandedMoves : List (Nat × Move Nat Nat) :=
  [(0, .advance), (2, .advance), (1, .advance), (1, .finish (.ok 90)), (1, .advance), (1, .advance), (1, .advance),
    (1, .advance), (1, .advance), (0, .advance), (2, .advance)]

def strandedMachine : Machine Nat Nat 3 where
  table := ⟨#v[.loading 1, .loading 3, .resident 9], [(2, 2), (9, 2), (3, 1), (1, 0)], #v[none, none, some 90], 1⟩
  threads := #[⟨[⟨2, 2, .asleep 1⟩, ⟨1, 1, .loading 0⟩], []⟩, ⟨[], [(2, .ok 2)]⟩,
    ⟨[⟨1, 1, .asleep 0⟩, ⟨3, 3, .loading 1⟩], []⟩]
  entered := [9, 3, 2, 1]

theorem run_strandedMoves : reusedMachine.run? nestedSetting strandedMoves = some strandedMachine := by
  with_unfolding_all rfl

end Nested

end Threads

end FrameEngine.Slots
