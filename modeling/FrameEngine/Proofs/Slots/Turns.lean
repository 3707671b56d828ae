import FrameEngine.Proofs.Slots.Threads

namespace FrameEngine.Slots

namespace Threads

variable {κ ρ : Type} {N : Nat}

def Call.move (outcome : κ → Except LoadError ρ) (c : Call κ ρ N) : Move κ ρ :=
  match c.phase with
  | .loading _ => .finish (outcome c.key)
  | _ => .advance

def Call.wake (c : Call κ ρ N) : Call κ ρ N :=
  match c.phase with
  | .asleep slot => { c with phase := .woken slot }
  | _ => c

theorem calls_wake (thread : Thread κ ρ N) : thread.wake.calls = thread.calls.map Call.wake := rfl

def Progress.calls : Progress κ ρ N → Multiset (Call κ ρ N)
  | .goOn c => {c}
  | .ended _ => 0

def Progress.results (wanted : κ) : Progress κ ρ N → Multiset (κ × Except SlotError (Fin N))
  | .goOn _ => 0
  | .ended result => {(wanted, result)}

structure Crowd (κ ρ : Type) (N : Nat) where
  table : Table κ ρ N
  calls : Multiset (Call κ ρ N)
  results : Multiset (κ × Except SlotError (Fin N))
  entered : List κ

def Machine.crowd (m : Machine κ ρ N) : Crowd κ ρ N := ⟨m.table, m.calls, m.results, m.entered⟩

def wakeIf (wakes : Bool) (calls : Multiset (Call κ ρ N)) : Multiset (Call κ ρ N) :=
  if wakes then calls.map Call.wake else calls

variable [DecidableEq κ]

def Machine.go? (setting : Setting κ) (outcome : κ → Except LoadError ρ) (m : Machine κ ρ N) (i : Nat) :
    Option (Machine κ ρ N) := do
  let thread ← m.threads[i]?
  let c ← thread.calls.head?
  m.step? setting i (c.move outcome)

def Machine.play? (setting : Setting κ) (outcome : κ → Except LoadError ρ) (m : Machine κ ρ N)
    (order : List Nat) : Option (Machine κ ρ N) :=
  order.foldlM (fun m i => m.go? setting outcome i) m

inductive Acts (setting : Setting κ) (outcome : κ → Except LoadError ρ) (t : Table κ ρ N) :
    Call κ ρ N → Progress κ ρ N → Table κ ρ N → List κ → Bool → Prop
  | hit {c slot} (hphase : c.phase = .lookingUp) (hprobe : t.probe c.key = .hit slot) :
      Acts setting outcome t c (c.found slot) t [] false
  | wait {c slot} (hphase : c.phase = .lookingUp) (hprobe : t.probe c.key = .pending slot) :
      Acts setting outcome t c (.goOn { c with phase := .asleep slot }) t [] false
  | reserve {c slot} (hphase : c.phase = .lookingUp) (hprobe : t.probe c.key = .vacant slot) :
      Acts setting outcome t c (.goOn { c with phase := .loading slot }) (t.reserve slot c.key) [c.key] false
  | full {c} (hphase : c.phase = .lookingUp) (hprobe : t.probe c.key = .full) :
      Acts setting outcome t c (.ended (.error (.outOfSlots setting.kind N))) t [] false
  | waitOn {c slot key} (hphase : c.phase = .woken slot) (hstate : t.states.get slot = .loading key) :
      Acts setting outcome t c (.goOn { c with phase := .asleep slot }) t [] false
  | find {c slot key} (hphase : c.phase = .woken slot) (hstate : t.states.get slot = .resident key)
      (hslot : t.slotOf? c.key = some slot) : Acts setting outcome t c (c.found slot) t [] false
  | retry {c slot} (hphase : c.phase = .woken slot) :
      Acts setting outcome t c (.goOn { c with phase := .lookingUp }) t [] false
  | succeed {c slot resource} (hphase : c.phase = .loading slot) (houtcome : outcome c.key = .ok resource) :
      Acts setting outcome t c (.goOn { c with phase := .storing slot resource }) t [] false
  | fail {c slot cause} (hphase : c.phase = .loading slot) (houtcome : outcome c.key = .error cause) :
      Acts setting outcome t c (.goOn { c with phase := .clearing slot cause }) t [] false
  | store {c slot resource} (hphase : c.phase = .storing slot resource) :
      Acts setting outcome t c (.goOn { c with phase := .marking slot }) (t.store slot resource) [] false
  | mark {c slot} (hphase : c.phase = .marking slot) :
      Acts setting outcome t c (.goOn { c with phase := .announcing slot }) (t.markResident slot) [] false
  | announce {c slot} (hphase : c.phase = .announcing slot) :
      Acts setting outcome t c (.goOn { c with phase := .counting slot }) t [] true
  | count {c slot} (hphase : c.phase = .counting slot) :
      Acts setting outcome t c (c.found slot) t.countLoad [] false
  | clear {c slot cause} (hphase : c.phase = .clearing slot cause) :
      Acts setting outcome t c (.goOn { c with phase := .announcingFailure cause }) (t.clear slot) [] false
  | giveUp {c cause} (hphase : c.phase = .announcingFailure cause) :
      Acts setting outcome t c (c.failed setting cause) t [] true
  | standIn {c slot} (hphase : c.phase = .aliasing slot) :
      Acts setting outcome t c (.ended (.ok slot)) (t.addAlias c.wanted slot setting.placeholder) [] false

inductive Crowd.Step (setting : Setting κ) (outcome : κ → Except LoadError ρ) :
    Crowd κ ρ N → Crowd κ ρ N → Prop
  | turn {t c progress t' new wakes} (rest) (results) (entered)
      (hacts : Acts setting outcome t c progress t' new wakes) :
      Crowd.Step setting outcome ⟨t, c ::ₘ rest, results, entered⟩
        ⟨t', progress.calls + wakeIf wakes rest, progress.results c.wanted + results, new ++ entered⟩

variable {setting : Setting κ} {outcome : κ → Except LoadError ρ} {m m' m₁ : Machine κ ρ N} {i : Nat}

/-- The turns are those in which `Machine.rounds` lets the threads go on. -/
theorem turn_eq (m : Machine κ ρ N) (i : Nat) : m.turn setting outcome i = (m.go? setting outcome i).getD m := by
  rw [Machine.turn, Machine.go?]
  cases hthread : m.threads[i]? with
  | none => rfl
  | some thread =>
      cases hhead : thread.calls.head? with
      | none => simp [hhead]
      | some c =>
          obtain ⟨wanted, key, phase⟩ := c
          simp only [Option.bind_some, hhead]
          cases phase <;> simp [Call.move, hhead]

theorem acts_of_advance {c : Call κ ρ N} {progress : Progress κ ρ N}
    (h : m.advanceCall setting c = some (progress, m₁)) :
    ∃ new wakes, Acts setting outcome m.table c progress m₁.table new wakes ∧
      m₁ = ⟨m₁.table, if wakes then m.wakeAll.threads else m.threads, new ++ m.entered, m.released⟩ := by
  obtain ⟨wanted, key, phase⟩ := c
  cases phase with
  | lookingUp =>
      simp only [Machine.advanceCall] at h
      split at h
      next slot hprobe =>
        cases h
        exact ⟨[], false, .hit rfl hprobe, rfl⟩
      next slot hprobe =>
        cases h
        exact ⟨[], false, .wait rfl hprobe, rfl⟩
      next slot hprobe =>
        cases h
        exact ⟨[key], false, .reserve rfl hprobe, rfl⟩
      next hprobe =>
        cases h
        exact ⟨[], false, .full rfl hprobe, rfl⟩
  | woken slot =>
      simp only [Machine.advanceCall] at h
      split at h
      next hstate =>
        cases h
        exact ⟨[], false, .waitOn rfl hstate, rfl⟩
      next hstate =>
        split at h
        next hslot =>
          cases h
          exact ⟨[], false, .find rfl hstate hslot, rfl⟩
        · cases h
          exact ⟨[], false, .retry rfl, rfl⟩
      · cases h
        exact ⟨[], false, .retry rfl, rfl⟩
  | asleep slot | loading slot => cases h
  | storing slot resource =>
      cases h
      exact ⟨[], false, .store rfl, rfl⟩
  | marking slot =>
      cases h
      exact ⟨[], false, .mark rfl, rfl⟩
  | announcing slot =>
      cases h
      exact ⟨[], true, .announce rfl, rfl⟩
  | counting slot =>
      cases h
      exact ⟨[], false, .count rfl, rfl⟩
  | clearing slot cause =>
      cases h
      exact ⟨[], false, .clear rfl, rfl⟩
  | announcingFailure cause =>
      cases h
      exact ⟨[], true, .giveUp rfl, rfl⟩
  | aliasing slot =>
      cases h
      exact ⟨[], false, .standIn rfl, rfl⟩

theorem go_acts (h : m.go? setting outcome i = some m') :
    ∃ thread c outer progress t new wakes, m.threads[i]? = some thread ∧ thread.calls = c :: outer ∧
      Acts setting outcome m.table c progress t new wakes ∧
      m' = Machine.settle ⟨t, if wakes then m.wakeAll.threads else m.threads, new ++ m.entered, m.released⟩ i
        c.wanted outer progress := by
  obtain ⟨thread, hi, h⟩ := Option.bind_eq_some_iff.mp h
  obtain ⟨c, hhead, h⟩ := Option.bind_eq_some_iff.mp h
  obtain ⟨outer, hcalls⟩ : ∃ outer, thread.calls = c :: outer := ⟨_, List.eq_cons_of_mem_head? hhead⟩
  have hadvance (hmove : c.move outcome = .advance) : ∃ progress t new wakes,
      Acts setting outcome m.table c progress t new wakes ∧
      m' = Machine.settle ⟨t, if wakes then m.wakeAll.threads else m.threads, new ++ m.entered, m.released⟩ i
        c.wanted outer progress := by
    rw [hmove] at h
    obtain ⟨thread', c', outer', progress, m₁, hi', hcalls', hadvance, rfl⟩ := step_advance h
    obtain rfl := Option.some.inj (hi.symm.trans hi')
    obtain ⟨rfl, rfl⟩ := List.cons.inj (hcalls.symm.trans hcalls')
    obtain ⟨new, wakes, hacts, hm₁⟩ := acts_of_advance hadvance
    exact ⟨progress, m₁.table, new, wakes, hacts, by rw [← hm₁]⟩
  refine ⟨thread, c, outer, ?_⟩
  cases hphase : c.phase with
  | loading slot =>
      have hmove : c.move outcome = .finish (outcome c.key) := by rw [Call.move, hphase]
      rw [hmove] at h
      obtain ⟨thread', c', outer', slot', hi', hcalls', hphase', rfl⟩ := step_finish h
      obtain rfl := Option.some.inj (hi.symm.trans hi')
      obtain ⟨rfl, rfl⟩ := List.cons.inj (hcalls.symm.trans hcalls')
      cases houtcome : outcome c.key with
      | ok resource => exact ⟨_, _, [], false, hi, hcalls, .succeed hphase' houtcome, rfl⟩
      | error cause => exact ⟨_, _, [], false, hi, hcalls, .fail hphase' houtcome, rfl⟩
  | _ =>
      have hmove : c.move outcome = .advance := by rw [Call.move, hphase]
      obtain ⟨progress, t, new, wakes, hacts, hm'⟩ := hadvance hmove
      exact ⟨progress, t, new, wakes, hi, hcalls, hacts, hm'⟩

section Crowd

omit [DecidableEq κ] in
theorem calls_wakeAll (m : Machine κ ρ N) : m.wakeAll.calls = m.calls.map Call.wake := by
  rw [Machine.calls, Machine.wakeAll, Array.toList_map, List.flatMap_map, Machine.calls, List.map_flatMap]
  rfl

omit [DecidableEq κ] in
theorem results_wakeAll (m : Machine κ ρ N) : m.wakeAll.results = m.results := by
  rw [Machine.results, Machine.wakeAll, Array.toList_map, List.flatMap_map]
  rfl

def Machine.Single (m : Machine κ ρ N) : Prop := ∀ thread ∈ m.threads, thread.calls.length ≤ 1

def Machine.wakeIf (m : Machine κ ρ N) (wakes : Bool) : Machine κ ρ N := if wakes then m.wakeAll else m

omit [DecidableEq κ] in
theorem calls_wakeIf (m : Machine κ ρ N) (wakes : Bool) :
    ((m.wakeIf wakes).calls : Multiset (Call κ ρ N)) = Threads.wakeIf wakes m.calls := by
  cases wakes with
  | false => rfl
  | true => exact congrArg _ (calls_wakeAll m)

omit [DecidableEq κ] in
theorem results_wakeIf (m : Machine κ ρ N) (wakes : Bool) : (m.wakeIf wakes).results = m.results := by
  cases wakes with
  | false => rfl
  | true => exact results_wakeAll m

omit [DecidableEq κ] in
theorem wakeIf_add (wakes : Bool) (calls more : Multiset (Call κ ρ N)) :
    wakeIf wakes (calls + more) = wakeIf wakes calls + wakeIf wakes more := by
  cases wakes with
  | false => rfl
  | true => exact Multiset.map_add Call.wake calls more

omit [DecidableEq κ] in
theorem thread_wakeIf {thread : Thread κ ρ N} (hi : m.threads[i]? = some thread) (wakes : Bool) :
    ∃ thread₁, (m.wakeIf wakes).threads[i]? = some thread₁ ∧
      (thread₁.calls : Multiset (Call κ ρ N)) = wakeIf wakes thread.calls ∧ thread₁.results = thread.results := by
  cases wakes with
  | false => exact ⟨thread, hi, rfl, rfl⟩
  | true =>
      refine ⟨thread.wake, ?_, rfl, rfl⟩
      rw [Machine.wakeIf, if_pos rfl, Machine.wakeAll, Array.getElem?_map, hi]
      rfl

omit [DecidableEq κ] in
theorem single_wakeIf (hm : m.Single) (wakes : Bool) : (m.wakeIf wakes).Single := by
  cases wakes with
  | false => exact hm
  | true =>
      intro thread hthread
      obtain ⟨thread, hmem, rfl⟩ := Array.mem_map.mp hthread
      rw [calls_wake, List.length_map]
      exact hm thread hmem

omit [DecidableEq κ] in
theorem single_settle (hm : m.Single) (wanted : κ) (progress : Progress κ ρ N) :
    (m.settle i wanted [] progress).Single := by
  have hmodify (f : Thread κ ρ N → Thread κ ρ N) (hf : ∀ thread, (f thread).calls.length ≤ 1) :
      ({ m with threads := m.threads.modify i f } : Machine κ ρ N).Single := by
    intro thread hthread
    obtain ⟨j, hj⟩ := Array.getElem?_of_mem hthread
    rw [Array.getElem?_modify] at hj
    by_cases he : i = j
    · rw [if_pos he] at hj
      obtain ⟨_, _, rfl⟩ := Option.map_eq_some_iff.mp hj
      exact hf _
    · rw [if_neg he] at hj
      exact hm thread (Array.mem_of_getElem? hj)
  cases progress with
  | goOn c => exact hmodify (fun thread => { thread with calls := [c] }) fun _ => Nat.le_refl 1
  | ended result =>
      exact hmodify (fun thread => { calls := [], results := (wanted, result) :: thread.results })
        fun _ => Nat.zero_le 1

omit [DecidableEq κ] in
/-- The outcome of a step is put in the place of its call; the calls around it do not sleep. -/
theorem calls_settle {thread : Thread κ ρ N} {c : Call κ ρ N} {outer : List (Call κ ρ N)}
    (hi : m.threads[i]? = some thread) (hcalls : thread.calls = c :: outer) (wakes : Bool)
    (houter : wakeIf wakes (outer : Multiset (Call κ ρ N)) = outer) :
    ∃ rest : Multiset (Call κ ρ N), (m.calls : Multiset (Call κ ρ N)) = c ::ₘ rest ∧
      ∀ wanted progress, (((m.wakeIf wakes).settle i wanted outer progress).calls : Multiset (Call κ ρ N)) =
        progress.calls + wakeIf wakes rest := by
  obtain ⟨thread₁, hi₁, hcalls₁, _⟩ := thread_wakeIf hi wakes
  obtain ⟨rest, hrest, _⟩ := flatMap_modify hi (·.calls)
  obtain ⟨others, hothers, hsettle⟩ := flatMap_modify hi₁ (·.calls)
  have hmachine : (m.calls : Multiset (Call κ ρ N)) = thread.calls + rest := hrest
  have hwoken : others = wakeIf wakes rest := by
    have hall := calls_wakeIf m wakes
    rw [hmachine, wakeIf_add, ← hcalls₁] at hall
    rw [Machine.calls, hothers] at hall
    exact Multiset.add_right_inj.mp hall
  refine ⟨outer + rest, ?_, fun wanted progress => ?_⟩
  · rw [hmachine, hcalls, ← Multiset.cons_coe, Multiset.cons_add]
  · rw [wakeIf_add, houter, ← hwoken, ← Multiset.add_assoc]
    cases progress with
    | goOn c' => exact hsettle _
    | ended result => exact (hsettle _).trans (by rw [Progress.calls, Multiset.zero_add])

omit [DecidableEq κ] in
theorem crowd_settle {thread : Thread κ ρ N} {c : Call κ ρ N} (hi : m.threads[i]? = some thread)
    (hcalls : thread.calls = [c]) (progress : Progress κ ρ N) (wakes : Bool) :
    ∃ rest : Multiset (Call κ ρ N), (m.calls : Multiset (Call κ ρ N)) = c ::ₘ rest ∧
      (((m.wakeIf wakes).settle i c.wanted [] progress).calls : Multiset (Call κ ρ N)) =
        progress.calls + wakeIf wakes rest ∧
      (((m.wakeIf wakes).settle i c.wanted [] progress).results : Multiset (κ × Except SlotError (Fin N))) =
        progress.results c.wanted + m.results := by
  obtain ⟨rest, hmachine, hsettle⟩ := calls_settle hi hcalls wakes (by cases wakes <;> rfl)
  obtain ⟨thread₁, hi₁, _, hresults₁⟩ := thread_wakeIf hi wakes
  obtain ⟨results, hresults, hsettle'⟩ := flatMap_modify hi₁ (·.results.reverse)
  have hsame : (m.results : Multiset (κ × Except SlotError (Fin N))) = thread₁.results.reverse + results := by
    rw [← results_wakeIf m wakes]
    exact hresults
  refine ⟨rest, hmachine, hsettle c.wanted progress, ?_⟩
  rw [hsame]
  cases progress with
  | goOn c' => exact (hsettle' _).trans (Multiset.zero_add _).symm
  | ended result =>
      refine (hsettle' _).trans ?_
      change (((c.wanted, result) :: thread₁.results).reverse : Multiset _) + results = _
      rw [Multiset.coe_reverse, ← Multiset.cons_coe, Multiset.cons_add, Multiset.coe_reverse]
      rfl

omit [DecidableEq κ] in
theorem calls_ofCalls (table : Table κ ρ N) (keys : List κ) :
    (Machine.ofCalls table keys).calls = keys.map fun key => ⟨key, key, .lookingUp⟩ := by
  rw [Machine.calls, Machine.ofCalls, List.flatMap_map]
  exact List.flatMap_pure_eq_map _ keys

omit [DecidableEq κ] in
theorem results_ofCalls (table : Table κ ρ N) (keys : List κ) : (Machine.ofCalls table keys).results = [] := by
  rw [Machine.results, Machine.ofCalls, List.flatMap_map, List.flatMap_eq_nil_iff]
  intro key _
  rfl

omit [DecidableEq κ] in
theorem single_ofCalls (table : Table κ ρ N) (keys : List κ) : (Machine.ofCalls table keys).Single := by
  intro thread hthread
  obtain ⟨key, _, rfl⟩ := List.mem_map.mp (List.mem_toArray.mp hthread)
  exact Nat.le_refl 1

theorem go_crowd (hm : m.Single) (h : m.go? setting outcome i = some m') :
    Crowd.Step setting outcome m.crowd m'.crowd ∧ m'.Single := by
  obtain ⟨thread, c, outer, progress, t, new, wakes, hi, hcalls, hacts, rfl⟩ := go_acts h
  have houter : outer = [] := by
    have hlength := hm thread (Array.mem_of_getElem? hi)
    rw [hcalls] at hlength
    exact List.length_eq_zero_iff.mp (Nat.le_zero.mp (Nat.le_of_succ_le_succ hlength))
  obtain rfl := houter
  obtain ⟨rest, hbefore, hafter, hresults⟩ := crowd_settle hi hcalls progress wakes
  have hm₁ := single_wakeIf hm wakes
  have hafter' : Machine.crowd (Machine.settle
      ⟨t, if wakes then m.wakeAll.threads else m.threads, new ++ m.entered, m.released⟩ i c.wanted [] progress) =
      ⟨t, progress.calls + wakeIf wakes rest, progress.results c.wanted + m.results, new ++ m.entered⟩ := by
    rw [← hafter, ← hresults]
    cases wakes <;> cases progress <;> rfl
  have hbefore' : m.crowd = ⟨m.table, c ::ₘ rest, m.results, m.entered⟩ := by
    rw [← hbefore]
    rfl
  refine ⟨?_, ?_⟩
  · rw [hafter', hbefore']
    exact .turn rest m.results m.entered hacts
  · have hsettled := single_settle (i := i) hm₁ c.wanted progress
    cases wakes <;> cases progress <;> exact hsettled

end Crowd

/-- A turn evicts nothing. -/
theorem go_moment (h : m.go? setting outcome i = some m') :
    ∃ effect, Slots.Step setting.placeholder m.moment effect m'.moment ∧ effect.released? = none := by
  obtain ⟨thread, hi, h⟩ := Option.bind_eq_some_iff.mp h
  obtain ⟨c, hhead, h⟩ := Option.bind_eq_some_iff.mp h
  obtain ⟨effect, hstep, _, _, hevicted⟩ := step_moment h
  refine ⟨effect, hstep, ?_⟩
  cases effect with
  | quiet | returned resource => rfl
  | evicted slot resource =>
      obtain ⟨hmove, _⟩ := hevicted slot resource rfl
      rw [Call.move] at hmove
      split at hmove <;> cases hmove

/-- Only a sleeping call cannot go on. -/
theorem go_isSome {thread : Thread κ ρ N} {c : Call κ ρ N} {outer : List (Call κ ρ N)}
    (hi : m.threads[i]? = some thread) (hcalls : thread.calls = c :: outer)
    (hawake : ∀ slot, c.phase ≠ .asleep slot) : (m.go? setting outcome i).isSome := by
  have hgo : m.go? setting outcome i = m.step? setting i (c.move outcome) := by
    simp [Machine.go?, hi, hcalls]
  have hadvance (h : (m.advanceCall setting c).isSome) : (m.step? setting i .advance).isSome := by
    obtain ⟨⟨progress, m₁⟩, hm₁⟩ := Option.isSome_iff_exists.mp h
    simp [Machine.step?, hi, hcalls, hm₁]
  obtain ⟨wanted, key, phase⟩ := c
  rw [hgo]
  cases phase with
  | asleep slot => exact absurd rfl (hawake slot)
  | loading slot => simp [Machine.step?, Call.move, hi, hcalls]
  | lookingUp =>
      apply hadvance
      simp only [Machine.advanceCall]
      split <;> rfl
  | woken slot =>
      apply hadvance
      simp only [Machine.advanceCall]
      split
      · rfl
      · split <;> rfl
      · rfl
  | _ =>
      apply hadvance
      rfl

theorem play?_cons (m : Machine κ ρ N) (i : Nat) (order : List Nat) :
    m.play? setting outcome (i :: order) = (m.go? setting outcome i).bind fun m' => m'.play? setting outcome order := by
  rw [Machine.play?, List.foldlM_cons]
  rfl

/-- What `Machine.rounds` lets happen is that threads take turns in some order. -/
theorem rounds_eq_play (setting : Setting κ) (outcome : κ → Except LoadError ρ) (n : Nat) (m : Machine κ ρ N) :
    ∃ order, m.play? setting outcome order = some (m.rounds setting outcome n) := by
  have hround (threads : List Nat) (m : Machine κ ρ N) :
      ∃ order, m.play? setting outcome order = some (threads.foldl (Machine.turn setting outcome) m) := by
    induction threads generalizing m with
    | nil => exact ⟨[], rfl⟩
    | cons i threads ih =>
        rw [List.foldl_cons, turn_eq]
        cases hgo : m.go? setting outcome i with
        | none => exact ih m
        | some m₁ =>
            obtain ⟨order, horder⟩ := ih m₁
            refine ⟨i :: order, ?_⟩
            rw [play?_cons, hgo]
            exact horder
  induction n generalizing m with
  | zero => exact ⟨[], rfl⟩
  | succ n ih =>
      rw [Machine.rounds]
      split
      · exact ⟨[], rfl⟩
      · obtain ⟨first, hfirst⟩ := hround (List.range m.threads.size) m
        obtain ⟨rest, hrest⟩ := ih ((List.range m.threads.size).foldl (Machine.turn setting outcome) m)
        refine ⟨first ++ rest, ?_⟩
        rw [Machine.play?, List.foldlM_append]
        exact Option.bind_eq_some_iff.mpr ⟨_, hfirst, hrest⟩

/-- What turns keep, told with their number, holds after any of them. -/
theorem play_keeps {P : Machine κ ρ N → Nat → Prop}
    (hgo : ∀ m i m' n, P m n → m.go? setting outcome i = some m' → P m' (n + 1)) {order : List Nat} {n : Nat}
    (hm : P m n) (h : m.play? setting outcome order = some m') : P m' (n + order.length) := by
  induction order generalizing m n with
  | nil =>
      cases h
      exact hm
  | cons i order ih =>
      rw [play?_cons] at h
      obtain ⟨m₁, hfirst, hrest⟩ := Option.bind_eq_some_iff.mp h
      rw [List.length_cons, Nat.add_comm order.length, ← Nat.add_assoc]
      exact ih (hgo m i m₁ n hm hfirst) hrest

end Threads

end FrameEngine.Slots
