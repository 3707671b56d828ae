import FrameEngine.Proofs.Slots.Agreement

namespace FrameEngine.Slots

open Indexing

namespace Threads

variable {κ ρ : Type} {N : Nat}

def Phase.waitsAt? : Phase ρ N → Option (Fin N)
  | .asleep slot | .woken slot => some slot
  | _ => none

def Machine.Nested (m : Machine κ ρ N) : Prop :=
  ∀ thread ∈ m.threads, ∀ c ∈ thread.calls.tail, ∃ slot, c.phase = .loading slot

variable [DecidableEq κ]

def Machine.reserved? (m : Machine κ ρ N) (i : Nat) : Move κ ρ → Option (Fin N × κ)
  | .advance => (m.threads[i]?.bind (·.calls.head?)).bind fun c => match c.phase, m.table.probe c.key with
      | .lookingUp, .vacant slot => some (slot, c.key)
      | _, _ => none
  | _ => none

/-- A slot is reserved while no call for another key waits there. -/
def Machine.ReservesAlone (m : Machine κ ρ N) (i : Nat) (move : Move κ ρ) : Prop :=
  ∀ r ∈ m.reserved? i move, ∀ c ∈ m.calls, c.phase.waitsAt? = some r.1 → c.key = r.2

instance (m : Machine κ ρ N) (i : Nat) (move : Move κ ρ) : Decidable (m.ReservesAlone i move) :=
  inferInstanceAs (Decidable (∀ r ∈ m.reserved? i move, ∀ c ∈ m.calls, c.phase.waitsAt? = some r.1 → c.key = r.2))

def Machine.AlwaysReservesAlone (setting : Setting κ) : List (Nat × Move κ ρ) → Machine κ ρ N → Prop
  | [], _ => True
  | (i, move) :: moves, m =>
      m.ReservesAlone i move ∧ ∀ m' ∈ m.step? setting i move, Machine.AlwaysReservesAlone setting moves m'

instance decidableAlwaysReservesAlone (setting : Setting κ) :
    ∀ moves : List (Nat × Move κ ρ), DecidablePred (Machine.AlwaysReservesAlone (N := N) setting moves)
  | [] => fun _ => isTrue trivial
  | (i, move) :: moves => fun m =>
      have := decidableAlwaysReservesAlone setting moves
      inferInstanceAs (Decidable (m.ReservesAlone i move ∧
        ∀ m' ∈ m.step? setting i move, Machine.AlwaysReservesAlone setting moves m'))

variable {setting : Setting κ} {outcome : κ → Except LoadError ρ} {m m' m₁ : Machine κ ρ N} {i : Nat}
  {move : Move κ ρ} {moves : List (Nat × Move κ ρ)}

inductive Changes (setting : Setting κ) (m m' : Machine κ ρ N) (i : Nat) (move : Move κ ρ) : Prop
  | call (key) (htable : m'.table = m.table)
      (hcalls : (m'.calls : Multiset (Call κ ρ N)) = ⟨key, key, .lookingUp⟩ ::ₘ (m.calls : Multiset (Call κ ρ N)))
  | rest (h : m' = m)
  | unload (n slot resource) (htable : m.table.unload n = .done slot resource m'.table) (hcalls : m'.calls = m.calls)
  | act (outcome : κ → Except LoadError ρ) (c progress new wakes) (rest : Multiset (Call κ ρ N))
      (hacts : Acts setting outcome m.table c progress m'.table new wakes)
      (hbefore : (m.calls : Multiset (Call κ ρ N)) = c ::ₘ rest)
      (hafter : (m'.calls : Multiset (Call κ ρ N)) = progress.calls + wakeIf wakes rest)
      (hreserved : ∀ slot, c.phase = .lookingUp → m.table.probe c.key = .vacant slot →
        m.reserved? i move = some (slot, c.key))

section Nested

omit [DecidableEq κ] in
theorem mem_calls {c : Call κ ρ N} : c ∈ m.calls ↔ ∃ thread ∈ m.threads, c ∈ thread.calls := by
  simp only [Machine.calls, List.mem_flatMap, Array.mem_toList_iff]

omit [DecidableEq κ] in
theorem wakeIf_of_loading {calls : List (Call κ ρ N)} (h : ∀ c ∈ calls, ∃ slot, c.phase = .loading slot)
    (wakes : Bool) : wakeIf wakes (calls : Multiset (Call κ ρ N)) = calls := by
  cases wakes with
  | false => rfl
  | true =>
      refine congrArg _ ((List.map_congr_left fun c hc => ?_).trans (List.map_id calls))
      obtain ⟨slot, hphase⟩ := h c hc
      rw [Call.wake, hphase]
      rfl

omit [DecidableEq κ] in
theorem Machine.Nested.outer (h : m.Nested) {thread : Thread κ ρ N} {c : Call κ ρ N} {outer : List (Call κ ρ N)}
    (hi : m.threads[i]? = some thread) (hcalls : thread.calls = c :: outer) :
    ∀ c' ∈ outer, ∃ slot, c'.phase = .loading slot := by
  have htail := h thread (Array.mem_of_getElem? hi)
  rwa [hcalls] at htail

omit [DecidableEq κ] in
theorem mem_modify {threads : Array (Thread κ ρ N)} {f : Thread κ ρ N → Thread κ ρ N} {thread : Thread κ ρ N}
    (h : thread ∈ threads.modify i f) : thread ∈ threads ∨ ∃ before, threads[i]? = some before ∧ thread = f before := by
  obtain ⟨j, hj⟩ := Array.getElem?_of_mem h
  rw [Array.getElem?_modify] at hj
  split at hj
  next hij =>
    subst hij
    obtain ⟨before, hbefore, rfl⟩ := Option.map_eq_some_iff.mp hj
    exact .inr ⟨before, hbefore, rfl⟩
  · exact .inl (Array.mem_of_getElem? hj)

omit [DecidableEq κ] in
theorem Machine.Nested.wakeAll (h : m.Nested) : m.wakeAll.Nested := by
  intro thread hthread c hc
  obtain ⟨before, hbefore, rfl⟩ := Array.mem_map.mp hthread
  rw [calls_wake, ← List.map_tail] at hc
  obtain ⟨c₀, hc₀, rfl⟩ := List.mem_map.mp hc
  obtain ⟨slot, hphase⟩ := h before hbefore c₀ hc₀
  exact ⟨slot, by rw [Call.wake, hphase, hphase]⟩

omit [DecidableEq κ] in
theorem Machine.Nested.settle (h : m.Nested) {outer : List (Call κ ρ N)}
    (houter : ∀ c ∈ outer, ∃ slot, c.phase = .loading slot) (wanted : κ) (progress : Progress κ ρ N) :
    (m.settle i wanted outer progress).Nested := by
  intro thread hthread
  cases progress with
  | goOn c =>
      simp only [Machine.settle] at hthread
      rcases mem_modify hthread with hthread | ⟨before, _, rfl⟩
      · exact h thread hthread
      · exact houter
  | ended result =>
      simp only [Machine.settle] at hthread
      rcases mem_modify hthread with hthread | ⟨before, _, rfl⟩
      · exact h thread hthread
      · exact fun c hc => houter c (List.mem_of_mem_tail hc)

def Progress.stack (outer : List (Call κ ρ N)) : Progress κ ρ N → List (Call κ ρ N)
  | .goOn c => c :: outer
  | .ended _ => outer

omit [DecidableEq κ] in
theorem calls_of_settle {wanted : κ} {outer : List (Call κ ρ N)} {progress : Progress κ ρ N} {thread : Thread κ ρ N}
    (hi : (m.settle i wanted outer progress).threads[i]? = some thread) : thread.calls = progress.stack outer := by
  cases progress <;>
    · simp only [Machine.settle, Array.getElem?_modify, if_true] at hi
      obtain ⟨before, _, rfl⟩ := Option.map_eq_some_iff.mp hi
      rfl

omit [DecidableEq κ] in
theorem loading_of_canCall {thread : Thread κ ρ N} (h : Machine.canCall thread) {c : Call κ ρ N}
    {outer : List (Call κ ρ N)} (hcalls : thread.calls = c :: outer) : ∃ slot, c.phase = .loading slot := by
  rw [Machine.canCall, hcalls] at h
  obtain ⟨wanted, key, phase⟩ := c
  cases phase <;> first | exact ⟨_, rfl⟩ | cases h

end Nested

theorem Machine.Nested.step (hm : m.Nested) (h : m.step? setting i move = some m') : m'.Nested := by
  cases move with
  | call key =>
      obtain ⟨thread, hi, hcan, rfl⟩ := step_call h
      intro thread' hthread'
      dsimp only at hthread'
      rcases mem_modify hthread' with hthread' | ⟨before, hbefore, rfl⟩
      · exact hm thread' hthread'
      · obtain rfl := Option.some.inj (hbefore.symm.trans hi)
        intro c hc
        cases hcalls : before.calls with
        | nil =>
            rw [hcalls] at hc
            cases hc
        | cons inner outer =>
            rw [hcalls] at hc
            rcases List.mem_cons.mp hc with rfl | hc
            · exact loading_of_canCall hcan hcalls
            · exact hm.outer hi hcalls c hc
  | unload slot =>
      obtain ⟨_, _, _, ⟨_, _, _, _, rfl⟩ | rfl⟩ := step_unload h
      · exact hm
      · exact hm
  | advance =>
      obtain ⟨thread, c, outer, progress, m₁, hi, hcalls, hadvance, rfl⟩ := step_advance h
      have hnested : m₁.Nested := by
        rcases (advanceCall_step hadvance 0).2.2 with hthreads | hthreads <;> rw [Machine.Nested, hthreads]
        · exact hm
        · exact hm.wakeAll
      exact hnested.settle (hm.outer hi hcalls) c.wanted progress
  | finish outcome =>
      obtain ⟨thread, c, outer, slot, hi, hcalls, _, rfl⟩ := step_finish h
      exact hm.settle (hm.outer hi hcalls) c.wanted _

theorem changes_of_step (hm : m.Nested) (h : m.step? setting i move = some m') : Changes setting m m' i move := by
  cases move with
  | call key =>
      obtain ⟨thread, hi, _, rfl⟩ := step_call h
      obtain ⟨others, hbefore, hafter⟩ := flatMap_modify hi (·.calls)
      refine .call key rfl ?_
      have hcalls : (m.calls : Multiset (Call κ ρ N)) = thread.calls + others := hbefore
      rw [hcalls, ← Multiset.cons_add]
      exact hafter _
  | unload n =>
      obtain ⟨_, _, _, ⟨slot, resource, table, hunload, rfl⟩ | rfl⟩ := step_unload h
      · exact .unload n slot resource hunload rfl
      · exact .rest rfl
  | advance =>
      obtain ⟨thread, c, outer, progress, m₁, hi, hcalls, hadvance, rfl⟩ := step_advance h
      obtain ⟨new, wakes, hacts, hm₁⟩ : ∃ new wakes,
          Acts setting (fun _ => .error (.unavailable "")) m.table c progress m₁.table new wakes ∧ _ :=
        acts_of_advance hadvance
      obtain ⟨rest, hbefore, hafter⟩ := calls_settle hi hcalls wakes (wakeIf_of_loading (hm.outer hi hcalls) wakes)
      have htable : (m₁.settle i c.wanted outer progress).table = m₁.table := by cases progress <;> rfl
      refine .act _ c progress new wakes rest (by rwa [htable]) hbefore ?_ fun slot hphase hprobe => ?_
      · rw [← hafter c.wanted progress, hm₁]
        cases wakes <;> cases progress <;> rfl
      · simp only [Machine.reserved?, hi, hcalls, List.head?_cons, Option.bind_some, hphase, hprobe]
  | finish outcome =>
      obtain ⟨thread, c, outer, slot, hi, hcalls, hphase, rfl⟩ := step_finish h
      obtain ⟨rest, hbefore, hafter⟩ := calls_settle hi hcalls false rfl
      refine .act (fun _ => outcome) c (.goOn { c with phase := phaseAfter slot outcome }) [] false rest ?_ hbefore
        (hafter c.wanted _) fun slot' hlookingUp _ => ?_
      · cases outcome with
        | ok resource => exact .succeed hphase rfl
        | error cause => exact .fail hphase rfl
      · cases hphase.symm.trans hlookingUp

section Acts

variable {t t' : Table κ ρ N} {c c' : Call κ ρ N} {progress : Progress κ ρ N} {new : List κ} {wakes : Bool}
  {slot : Fin N} {key : κ}

/-- A slot that comes to be loading is reserved by the call that acts. -/
theorem Acts.loading_or_reserves (h : Acts setting outcome t c progress t' new wakes)
    (hs : t'.states.get slot = .loading key) :
    t.states.get slot = .loading key ∨ c.phase = .lookingUp ∧ t.probe c.key = .vacant slot ∧ key = c.key := by
  cases h with
  | @reserve reserved hphase hprobe =>
      by_cases he : reserved = slot
      · subst he
        rw [Table.reserve, get_set_self] at hs
        cases hs
        exact .inr ⟨hphase, hprobe, rfl⟩
      · exact .inl ((Table.get_reserve_of_ne he c.key).symm.trans hs)
  | @mark marked =>
      by_cases he : marked = slot
      · exact absurd (he ▸ hs) (t.markResident_ne_loading slot key)
      · exact .inl ((Table.get_markResident_of_ne he).symm.trans hs)
  | @clear cleared =>
      by_cases he : cleared = slot
      · exact absurd (he ▸ hs) (t.clear_ne_loading slot key)
      · exact .inl ((Table.get_clear_of_ne he).symm.trans hs)
  | standIn =>
      rw [(t.addAlias_keeps _ _ setting.placeholder).1] at hs
      exact .inl hs
  | _ => exact .inl hs

/-- A call comes to wait by falling asleep: on the load of its own key, unless it was woken to find another one. -/
theorem Acts.asleep_of_waits (h : Acts setting outcome t c (.goOn c') t' new wakes)
    (hc : t.Coherent setting.placeholder) (hwaits : c'.phase.waitsAt? = some slot) :
    c'.phase = .asleep slot ∧ c'.key = c.key ∧ t' = t ∧
      (t.states.get slot = .loading c.key ∨ c.phase = .woken slot ∧ ∃ key, t.states.get slot = .loading key) := by
  generalize hp : Progress.goOn c' = progress at h
  cases h with
  | wait _ hprobe =>
      cases hp
      cases hwaits
      exact ⟨rfl, rfl, rfl, .inl (loading_of_pending hc hprobe)⟩
  | waitOn hphase hs =>
      cases hp
      cases hwaits
      exact ⟨rfl, rfl, rfl, .inr ⟨hphase, _, hs⟩⟩
  | hit | find | count => rw [phase_of_found hp.symm] at hwaits; cases hwaits
  | giveUp => rw [phase_of_failed hp.symm] at hwaits; cases hwaits
  | full | standIn => cases hp
  | reserve | retry | succeed | fail | store | mark | announce | clear =>
      cases hp
      cases hwaits

end Acts

/-- What holds while slots are reserved alone. -/
structure Machine.Waits (setting : Setting κ) (m : Machine κ ρ N) : Prop where
  sound : m.moment.Sound setting.placeholder
  attended : Attended m.table (worksOf m.calls)
  nested : m.Nested
  own : ∀ c ∈ m.calls, ∀ slot key, c.phase.waitsAt? = some slot → m.table.states.get slot = .loading key → key = c.key
  roused : Roused m.table m.calls

section Step

omit [DecidableEq κ] in
theorem waitsAt?_wake (c : Call κ ρ N) : c.wake.phase.waitsAt? = c.phase.waitsAt? ∧ c.wake.key = c.key := by
  rw [Call.wake]
  split
  next hphase => exact ⟨by rw [hphase]; rfl, rfl⟩
  · exact ⟨rfl, rfl⟩

theorem Table.unload_loading {t t' : Table κ ρ N} {n : Nat} {unloaded slot : Fin N} {resource : Option ρ} {key : κ}
    (h : t.unload n = .done unloaded resource t') :
    t'.states.get slot = .loading key ↔ t.states.get slot = .loading key := by
  obtain ⟨_, _, ⟨holder, hresident⟩, rfl⟩ := Table.unload_done h
  by_cases he : unloaded = slot
  · subst he
    rw [hresident]
    exact iff_of_false (t.clear_ne_loading unloaded key) (by simp)
  · exact Iff.of_eq (congrArg (· = _) (t.get_clear_of_ne he))

variable (hw : m.Waits setting)

include hw

theorem Machine.Waits.loading_own {c c' : Call κ ρ N} {t' : Table κ ρ N} {new : List κ} {wakes : Bool}
    (hc : c ∈ m.calls) (hacts : Acts setting outcome m.table c (.goOn c') t' new wakes) {slot : Fin N}
    (hwaits : c'.phase.waitsAt? = some slot) : t'.states.get slot = .loading c'.key := by
  obtain ⟨_, hkey, rfl, hown | ⟨hphase, key, hs⟩⟩ := hacts.asleep_of_waits hw.sound.coherent hwaits
  · rwa [hkey]
  · have hsame := hw.own c hc slot key (by rw [hphase]; rfl) hs
    rw [hs, hkey, hsame]

theorem Machine.Waits.own_step (halone : m.ReservesAlone i move) (hchanges : Changes setting m m' i move)
    {c : Call κ ρ N} (hc : c ∈ m'.calls) {slot : Fin N} {key : κ} (hwaits : c.phase.waitsAt? = some slot)
    (hs : m'.table.states.get slot = .loading key) : key = c.key := by
  have hc : c ∈ (m'.calls : Multiset (Call κ ρ N)) := hc
  cases hchanges with
  | call key' htable hcalls =>
      rw [htable] at hs
      rw [hcalls] at hc
      rcases Multiset.mem_cons.mp hc with rfl | hc
      · cases hwaits
      · exact hw.own c hc slot key hwaits hs
  | rest h =>
      subst h
      exact hw.own c hc slot key hwaits hs
  | unload n unloaded resource htable hcalls =>
      rw [hcalls] at hc
      exact hw.own c hc slot key hwaits ((Table.unload_loading htable).mp hs)
  | act outcome mover progress new wakes rest hacts hbefore hafter hreserved =>
      have hmember {c : Call κ ρ N} (hc : c ∈ mover ::ₘ rest) : c ∈ m.calls := by
        rw [← hbefore] at hc
        exact hc
      rw [hafter] at hc
      rcases Multiset.mem_add.mp hc with hnew | hold
      · obtain rfl := Progress.mem_calls.mp hnew
        have hloading := hw.loading_own (hmember (Multiset.mem_cons_self mover rest)) hacts hwaits
        exact (SlotState.loading.inj (hloading.symm.trans hs)).symm
      · obtain ⟨c₀, hc₀, hsame, hkey⟩ : ∃ c₀ ∈ rest, c.phase.waitsAt? = c₀.phase.waitsAt? ∧ c.key = c₀.key := by
          rcases mem_wakeIf hold with ⟨_, hc₀⟩ | ⟨c₀, hc₀, rfl⟩
          · exact ⟨c, hc₀, rfl, rfl⟩
          · exact ⟨c₀, hc₀, waitsAt?_wake c₀⟩
        rw [hsame] at hwaits
        rw [hkey]
        have hc₀ := hmember (Multiset.mem_cons_of_mem hc₀)
        -- a slot reserved by this move has nobody else waiting at it
        rcases hacts.loading_or_reserves hs with hs | ⟨hphase, hprobe, rfl⟩
        · exact hw.own c₀ hc₀ slot key hwaits hs
        · exact (halone _ (hreserved slot hphase hprobe) c₀ hc₀ hwaits).symm

theorem Machine.Waits.roused_step (hchanges : Changes setting m m' i move) : Roused m'.table m'.calls := by
  have hroused := hw.roused
  cases hchanges with
  | call key htable hcalls =>
      rw [htable, hcalls]
      intro c hc slot hasleep
      rcases Multiset.mem_cons.mp hc with rfl | hc
      · cases hasleep
      · refine (hroused c hc slot hasleep).imp_right ?_
        rintro ⟨c', hc', hannounces⟩
        exact ⟨c', Multiset.mem_cons_of_mem hc', hannounces⟩
  | rest h =>
      subst h
      exact hroused
  | unload n unloaded resource htable hcalls =>
      rw [hcalls]
      intro c hc slot hasleep
      refine (hroused c hc slot hasleep).imp_left ?_
      rintro ⟨key, hs⟩
      exact ⟨key, (Table.unload_loading htable).mpr hs⟩
  | act outcome mover progress new wakes rest hacts hbefore hafter hreserved =>
      rw [hafter]
      rw [hbefore] at hroused
      exact hacts.roused hw.sound.coherent hroused

/-- Whoever falls asleep does so while its own key loads. -/
theorem Machine.Waits.asleep_step (h : m.step? setting i move = some m') {thread : Thread κ ρ N} {c : Call κ ρ N}
    {slot : Fin N} (hi : m'.threads[i]? = some thread) (hhead : thread.calls.head? = some c)
    (hasleep : c.phase = .asleep slot) : m'.table.states.get slot = .loading c.key := by
  -- a thread can call only in a load, so the innermost call of one that does so is not asleep
  have hcannot (hcan : Machine.canCall thread = true) : False := by
    obtain ⟨_, hloading⟩ := loading_of_canCall hcan (List.eq_cons_of_mem_head? hhead)
    cases hloading.symm.trans hasleep
  cases move with
  | call key =>
      obtain ⟨before, hbefore, _, rfl⟩ := step_call h
      dsimp only at hi
      rw [Array.getElem?_modify, if_pos rfl, hbefore] at hi
      cases hi
      cases hhead
      cases hasleep
  | unload n =>
      obtain ⟨before, hbefore, hcan, ⟨_, _, _, _, rfl⟩ | rfl⟩ := step_unload h <;>
        exact (hcannot (Option.some.inj (hbefore.symm.trans hi) ▸ hcan)).elim
  | advance =>
      obtain ⟨before, mover, outer, progress, m₁, hbefore, hcalls, hadvance, rfl⟩ := step_advance h
      obtain ⟨new, wakes, hacts, _⟩ : ∃ new wakes,
          Acts setting (fun _ => .error (.unavailable "")) m.table mover progress m₁.table new wakes ∧ _ :=
        acts_of_advance hadvance
      have hmover : mover ∈ m.calls := by
        refine mem_calls.mpr ⟨before, Array.mem_of_getElem? hbefore, ?_⟩
        rw [hcalls]
        exact List.mem_cons_self
      rw [calls_of_settle hi] at hhead
      cases progress with
      | goOn c' =>
          cases hhead
          exact hw.loading_own hmover hacts (by rw [hasleep]; rfl)
      | ended result =>
          obtain ⟨_, hloading⟩ := hw.nested.outer hbefore hcalls c (List.mem_of_mem_head? hhead)
          cases hloading.symm.trans hasleep
  | finish outcome =>
      obtain ⟨before, mover, outer, reserved, hbefore, hcalls, _, rfl⟩ := step_finish h
      rw [calls_of_settle hi] at hhead
      cases hhead
      cases outcome <;> cases hasleep

theorem Machine.Waits.step (halone : m.ReservesAlone i move) (h : m.step? setting i move = some m') :
    m'.Waits setting := by
  obtain ⟨effect, hstep, _⟩ := step_moment h
  have hchanges := changes_of_step hw.nested h
  exact {
    sound := hw.sound.step hstep
    attended := hstep.attended hw.sound hw.attended
    nested := hw.nested.step h
    own := fun c hc slot key => hw.own_step halone hchanges hc
    roused := hw.roused_step hchanges }

end Step

theorem waits_idle (setting : Setting κ) (threads : Nat) :
    (Machine.idle threads : Machine κ ρ N).Waits setting := by
  have hnone {c : Call κ ρ N} (hc : c ∈ (Machine.idle threads : Machine κ ρ N).calls) : False := by
    rw [calls_idle] at hc
    cases hc
  refine
    { sound := ?_
      attended := ?_
      nested := fun thread hthread c hc => ?_
      own := fun c hc => (hnone hc).elim
      roused := fun c hc => (hnone hc).elim }
  · rw [moment_idle]
    exact sound_start _
  · rw [calls_idle]
    exact attended_start
  · exact (hnone (mem_calls.mpr ⟨thread, hthread, List.mem_of_mem_tail hc⟩)).elim

theorem Machine.Waits.run (hw : m.Waits setting) (halone : Machine.AlwaysReservesAlone setting moves m)
    (h : m.run? setting moves = some m') : m'.Waits setting := by
  induction moves generalizing m with
  | nil =>
      cases h
      exact hw
  | cons move moves ih =>
      obtain ⟨i, move⟩ := move
      rw [run?_cons] at h
      obtain ⟨m₁, hstep, hrun⟩ := Option.bind_eq_some_iff.mp h
      exact ih (hw.step halone.1 hstep) (halone.2 m₁ hstep) hrun

end Threads

end FrameEngine.Slots
