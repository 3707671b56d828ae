import FrameEngine.Jobs.List
import Mathlib.Data.Multiset.Filter

namespace FrameEngine.Jobs

variable {α : Type}

inductive Work (α : Type)
  | popping
  | running (job : Job α)
  | callingBack (job : Job α)
  | countingPanic
  | countingDown
  | completing
  | resetting
  | beginning
  | counting (job : Job α)
  | pushing (job : Job α)
  | ending
  /-- It has handed its batch over, and is about to wait for it. -/
  | announcing
  | inspecting
  | weighing
  | handingBack
  | waiting
  | judging

namespace Work

def afterJob (job : Job α) (panicked : Bool) : Work α :=
  if panicked then .countingPanic else if job.hasCallback then .callingBack job else .countingDown

def afterCallback (panicked : Bool) : Work α := if panicked then .countingPanic else .countingDown

def holdsJob : Work α → Bool
  | .pushing _ | .running _ | .callingBack _ | .countingPanic | .countingDown => true
  | _ => false

def isClient : Work α → Bool
  | .popping | .running _ | .callingBack _ | .countingPanic | .countingDown | .completing => false
  | _ => true

/-- Work that goes on after its batch may be complete: a look at the list was made, or is to come. -/
def lingers : Work α → Bool
  | .popping | .announcing | .inspecting | .weighing | .handingBack | .waiting | .judging => true
  | _ => false

def isArrival : Work α → Bool
  | .counting _ | .ending | .inspecting => true
  | _ => false

def isCompleting : Work α → Bool
  | .completing => true
  | _ => false

def isCountingPanic : Work α → Bool
  | .countingPanic => true
  | _ => false

def Fits (state : ListState) : Work α → Prop
  | .running _ | .callingBack _ | .countingPanic | .countingDown | .completing => state = .draining
  | .resetting | .beginning | .counting _ | .pushing _ | .ending | .weighing | .handingBack => state = .filling
  | .popping | .announcing | .waiting => state ≠ .filling
  | .judging => state = .complete
  | .inspecting => True

inductive Turns (list : JobList α) : Work α → Option (Work α) → Prop
  | miss : Turns list .popping none
  | announce : Turns list .announcing (some .inspecting)
  | findComplete (h : list.state = .complete) : Turns list .inspecting (some .judging)
  | findFilling (h : list.state = .filling) : Turns list .inspecting (some .weighing)
  | findDraining (h : list.state = .draining) : Turns list .inspecting (some .waiting)
  | weighEmpty : Turns list .weighing (some .handingBack)
  | weighJobs : Turns list .weighing none
  | keep : Turns list .handingBack none
  | wake (h : list.state ≠ .draining) : Turns list .waiting (some .judging)
  | judge : Turns list .judging none

def Continues : Option (Work α) → Prop
  | none | some .beginning | some (.counting _) | some .ending => True
  | _ => False

def beside (crew : Multiset (Work α)) : Option (Work α) → Multiset (Work α)
  | none => crew
  | some work => work ::ₘ crew

@[simp] theorem beside_none (crew : Multiset (Work α)) : beside crew none = crew := rfl

@[simp] theorem beside_some (crew : Multiset (Work α)) (work : Work α) :
    beside crew (some work) = work ::ₘ crew := rfl

def held (crew : Multiset (Work α)) : Nat := crew.countP (·.holdsJob)

def completers (crew : Multiset (Work α)) : Nat := crew.countP (·.isCompleting)

def clients (crew : Multiset (Work α)) : Nat := crew.countP (·.isClient)

def AllFit (state : ListState) (crew : Multiset (Work α)) : Prop := ∀ work ∈ crew, work.Fits state

section Cons

variable (work : Work α) (crew : Multiset (Work α))

@[simp] theorem held_cons : held (work ::ₘ crew) = held crew + if work.holdsJob then 1 else 0 :=
  Multiset.countP_cons _ _ _

@[simp] theorem completers_cons :
    completers (work ::ₘ crew) = completers crew + if work.isCompleting then 1 else 0 :=
  Multiset.countP_cons _ _ _

@[simp] theorem clients_cons : clients (work ::ₘ crew) = clients crew + if work.isClient then 1 else 0 :=
  Multiset.countP_cons _ _ _

@[simp] theorem allFit_cons (state : ListState) :
    AllFit state (work ::ₘ crew) ↔ work.Fits state ∧ AllFit state crew :=
  Multiset.forall_mem_cons

@[simp] theorem completers_zero : completers (0 : Multiset (Work α)) = 0 := rfl

@[simp] theorem clients_zero : clients (0 : Multiset (Work α)) = 0 := rfl

@[simp] theorem completers_singleton :
    completers ({work} : Multiset (Work α)) = if work.isCompleting then 1 else 0 := by
  rw [← Multiset.cons_zero, completers_cons, completers_zero, Nat.zero_add]

@[simp] theorem clients_singleton : clients ({work} : Multiset (Work α)) = if work.isClient then 1 else 0 := by
  rw [← Multiset.cons_zero, clients_cons, clients_zero, Nat.zero_add]

@[simp] theorem allFit_singleton (state : ListState) :
    AllFit state ({work} : Multiset (Work α)) ↔ work.Fits state := by
  simp [AllFit]

@[simp] theorem allFit_zero (state : ListState) : AllFit state (0 : Multiset (Work α)) :=
  fun _ h => absurd h (Multiset.notMem_zero _)

variable {work crew} {list : JobList α} {next : Option (Work α)}

theorem Turns.held (h : Turns list work next) : held (beside crew next) = held (work ::ₘ crew) := by
  cases h <;> simp [beside, holdsJob]

theorem Turns.completers (h : Turns list work next) :
    completers (beside crew next) = completers (work ::ₘ crew) := by
  cases h <;> simp [beside, isCompleting]

theorem Turns.clients_le (h : Turns list work next) : clients (beside crew next) ≤ clients (work ::ₘ crew) := by
  cases h <;> simp [beside, isClient]

theorem Turns.fits (h : Turns list work next) (hfits : AllFit list.state (work ::ₘ crew)) :
    AllFit list.state (beside crew next) := by
  rw [allFit_cons] at hfits
  cases h with
  | wake hwoken =>
      refine (allFit_cons _ _ _).mpr ⟨?_, hfits.2⟩
      cases hstate : list.state with
      | complete => rfl
      | filling => exact absurd hstate hfits.1
      | draining => exact absurd hstate hwoken
  | miss | weighJobs | keep | judge => exact hfits.2
  | announce => exact (allFit_cons _ _ _).mpr ⟨trivial, hfits.2⟩
  | findComplete hstate => exact (allFit_cons _ _ _).mpr ⟨hstate, hfits.2⟩
  | findFilling hstate => exact (allFit_cons _ _ _).mpr ⟨hstate, hfits.2⟩
  | findDraining hstate => exact (allFit_cons _ _ _).mpr ⟨by simp [Fits, hstate], hfits.2⟩
  | weighEmpty => exact (allFit_cons _ _ _).mpr ⟨hfits.1, hfits.2⟩

theorem Continues.held (h : Continues next) : held (beside crew next) = held crew := by
  unfold Continues at h
  split at h <;> simp_all [beside, holdsJob]

theorem Continues.completers (h : Continues next) : completers (beside crew next) = completers crew := by
  unfold Continues at h
  split at h <;> simp_all [beside, isCompleting]

theorem Continues.clients_le (h : Continues next) : clients (beside crew next) ≤ clients crew + 1 := by
  unfold Continues at h
  split at h <;> simp_all [beside, isClient]

theorem Continues.fits (h : Continues next) {state : ListState} (hstate : state = .filling)
    (hfits : AllFit state crew) : AllFit state (beside crew next) := by
  unfold Continues at h
  split at h <;> simp_all [beside, Fits]

theorem of_isArrival (h : work.isArrival) : work.holdsJob = false ∧ work.isCompleting = false := by
  cases work <;> first | exact ⟨rfl, rfl⟩ | cases h

theorem afterJob_cases (job : Job α) (panicked : Bool) :
    (panicked = true ∧ afterJob job panicked = .countingPanic) ∨
      (panicked = false ∧ job.hasCallback = true ∧ afterJob job panicked = .callingBack job) ∨
        (panicked = false ∧ job.hasCallback = false ∧ afterJob job panicked = .countingDown) := by
  cases panicked <;> cases hcallback : job.hasCallback <;> simp [afterJob, hcallback]

theorem afterCallback_cases (panicked : Bool) :
    (panicked = true ∧ (afterCallback panicked : Work α) = .countingPanic) ∨
      (panicked = false ∧ (afterCallback panicked : Work α) = .countingDown) := by
  cases panicked <;> simp [afterCallback]

end Cons

end Work

structure Desk (α : Type) where
  list : JobList α
  crew : Multiset (Work α)

inductive Effect (α : Type)
  | quiet
  | opened (thread : Nat) (jobs : List (Job α))
  | arrived (work : Work α)
  | added (job : Job α)
  | started (job : Job α)
  | ended (job : Job α) (panicked : Bool)
  | calledBack (job : Job α) (panicked : Bool)

namespace Desk

open Work (beside)

inductive Step : Desk α → Effect α → Desk α → Prop
  | rest (d) : Step d .quiet d
  | turn {list crew work next} (h : Work.Turns list work next) :
      Step ⟨list, work ::ₘ crew⟩ .quiet ⟨list, beside crew next⟩
  | look {list crew} (h : list.state = .draining) : Step ⟨list, crew⟩ .quiet ⟨list, .popping ::ₘ crew⟩
  | pop {list crew job queue} (h : list.queue = job :: queue) :
      Step ⟨list, .popping ::ₘ crew⟩ (.started job) ⟨{ list with queue := queue }, .running job ::ₘ crew⟩
  | endJob (list) (crew) (job) (panicked) :
      Step ⟨list, .running job ::ₘ crew⟩ (.ended job panicked) ⟨list, .afterJob job panicked ::ₘ crew⟩
  | endCallback (list) (crew) (job) (panicked) :
      Step ⟨list, .callingBack job ::ₘ crew⟩ (.calledBack job panicked) ⟨list, .afterCallback panicked ::ₘ crew⟩
  | countPanic (list) (crew) :
      Step ⟨list, .countingPanic ::ₘ crew⟩ .quiet
        ⟨{ list with panicked := list.panicked + 1 }, .countingDown ::ₘ crew⟩
  | countDown {list crew} (h : list.outstanding ≠ 1) :
      Step ⟨list, .countingDown ::ₘ crew⟩ .quiet ⟨{ list with outstanding := list.outstanding - 1 }, crew⟩
  | countLast {list crew} (h : list.outstanding = 1) :
      Step ⟨list, .countingDown ::ₘ crew⟩ .quiet
        ⟨{ list with outstanding := list.outstanding - 1 }, .completing ::ₘ crew⟩
  | complete (list) (crew) :
      Step ⟨list, .completing ::ₘ crew⟩ .quiet ⟨{ list with state := .complete }, crew⟩
  | arrive (list) (crew) (work) (h : work.isArrival) :
      Step ⟨list, crew⟩ (.arrived work) ⟨list, work ::ₘ crew⟩
  | claim {list crew} (thread) (jobs) (h : list.state = .complete) :
      Step ⟨list, crew⟩ (.opened thread jobs) ⟨{ list with state := .filling }, .resetting ::ₘ crew⟩
  | reopen {list crew} (thread) (jobs) (h : list.state = .complete) :
      Step ⟨list, crew⟩ (.opened thread jobs) ⟨{ list with state := .filling, panicked := 0 }, crew⟩
  | refresh {list crew} (h : list.state = .filling) :
      Step ⟨list, crew⟩ .quiet ⟨{ list with panicked := 0 }, crew⟩
  | reset (list) (crew) (next) (hnext : Work.Continues next) :
      Step ⟨list, .resetting ::ₘ crew⟩ .quiet ⟨{ list with panicked := 0 }, beside crew next⟩
  | begin (list) (crew) (next) (hnext : Work.Continues next) :
      Step ⟨list, .beginning ::ₘ crew⟩ .quiet ⟨{ list with panicked := 0 }, beside crew next⟩
  | count (list) (crew) (job) :
      Step ⟨list, .counting job ::ₘ crew⟩ (.added job)
        ⟨{ list with outstanding := list.outstanding + 1 }, .pushing job ::ₘ crew⟩
  | push (list) (crew) (job) (next) (hnext : Work.Continues next) :
      Step ⟨list, .pushing job ::ₘ crew⟩ .quiet ⟨{ list with queue := list.queue ++ [job] }, beside crew next⟩
  | endEmpty {list crew next} (h : list.outstanding = 0) (hnext : next = none ∨ next = some .inspecting) :
      Step ⟨list, .ending ::ₘ crew⟩ .quiet ⟨{ list with state := .complete }, beside crew next⟩
  | handOver {list crew next} (h : list.outstanding ≠ 0) (hnext : next = none ∨ next = some .announcing) :
      Step ⟨list, .ending ::ₘ crew⟩ .quiet ⟨{ list with state := .draining }, beside crew next⟩
  | handBack {list crew} (h : list.outstanding = 0) :
      Step ⟨list, .handingBack ::ₘ crew⟩ .quiet ⟨{ list with state := .complete }, crew⟩

/-- A list is opened while nobody lingers there, and one client comes to it at a time. -/
def Permits (d : Desk α) : Effect α → Prop
  | .opened _ _ => ∀ work ∈ d.crew, work.lingers = false
  | .arrived work => (∀ other ∈ d.crew, other.isClient = false) ∧ work.Fits d.list.state
  | _ => True

structure Sound (d : Desk α) : Prop where
  outstanding : d.list.outstanding = d.list.queue.length + Work.held d.crew
  complete : d.list.state = .complete → d.list.outstanding = 0
  completing : d.list.state = .draining → Work.completers d.crew = if d.list.outstanding = 0 then 1 else 0
  client : Work.clients d.crew ≤ 1
  fits : Work.AllFit d.list.state d.crew

variable {list : JobList α} {crew : Multiset (Work α)} {work : Work α} {d d' : Desk α} {effect : Effect α}

theorem Sound.not_client (h : Sound ⟨list, work ::ₘ crew⟩) (hw : work.isClient) {other : Work α}
    (ho : other ∈ crew) : other.isClient = false := by
  have hc := h.client
  simp only [Work.clients_cons, hw, if_true] at hc
  have hzero : Work.clients crew = 0 := by omega
  simpa using Multiset.countP_eq_zero.mp hzero other ho

theorem isClient_of_fits (h : work.Fits .filling) : work.isClient := by
  cases work <;> simp_all [Work.Fits, Work.isClient]

/-- A client of a list that is being filled is alone there. -/
theorem Sound.alone (h : Sound ⟨list, work ::ₘ crew⟩) (hlist : list.state = .filling) (hw : work.isClient) :
    crew = 0 := by
  refine Multiset.eq_zero_of_forall_notMem fun other ho => ?_
  have hfits := h.fits other (Multiset.mem_cons_of_mem ho)
  have hclient := isClient_of_fits (hlist ▸ hfits)
  rw [h.not_client hw ho] at hclient
  cases hclient

/-- What is outstanding is in the queue or with a thread, whoever uses the list. -/
theorem Step.outstanding (h : Step d effect d')
    (hd : d.list.outstanding = d.list.queue.length + Work.held d.crew) :
    d'.list.outstanding = d'.list.queue.length + Work.held d'.crew := by
  cases h with
  | rest => exact hd
  | turn h => rw [h.held]; exact hd
  | pop h =>
      simp only [h, Work.held_cons, Work.holdsJob, List.length_cons, if_true, Bool.false_eq_true, if_false] at hd ⊢
      omega
  | endJob _ _ job panicked =>
      rcases Work.afterJob_cases job panicked with ⟨_, he⟩ | ⟨_, _, he⟩ | ⟨_, _, he⟩ <;>
        simpa [he, Work.holdsJob] using hd
  | endCallback _ _ job panicked =>
      rcases Work.afterCallback_cases (α := α) panicked with ⟨_, he⟩ | ⟨_, he⟩ <;>
        simpa [he, Work.holdsJob] using hd
  | countDown h | countLast h =>
      simp only [Work.held_cons, Work.holdsJob, if_true, Bool.false_eq_true, if_false] at hd ⊢
      omega
  | count =>
      simp only [Work.held_cons, Work.holdsJob, if_true, Bool.false_eq_true, if_false] at hd ⊢
      omega
  | push _ _ _ _ h =>
      simp only [Work.held_cons, Work.holdsJob, if_true] at hd
      simp only [h.held, List.length_append, List.length_singleton]
      omega
  | reset _ _ _ h | begin _ _ _ h => simpa [h.held, Work.holdsJob] using hd
  | endEmpty _ h | handOver _ h => rcases h with rfl | rfl <;> simpa [Work.holdsJob, Work.beside] using hd
  | arrive _ _ work h => simpa [(Work.of_isArrival h).1] using hd
  | look | countPanic | complete | claim | reopen | refresh | handBack => simpa [Work.holdsJob] using hd

theorem Sound.deserted (h : Sound ⟨list, crew⟩) (hlist : list.state = .complete)
    (hcrew : ∀ work ∈ crew, work.lingers = false) : crew = 0 := by
  refine Multiset.eq_zero_of_forall_notMem fun work hw => ?_
  have hfits := h.fits work hw
  have hlingers := hcrew work hw
  simp only [hlist] at hfits
  cases work <;> simp_all [Work.Fits, Work.lingers]

theorem Sound.queue_of_complete (h : Sound ⟨list, crew⟩) (hlist : list.state = .complete) : list.queue = [] := by
  have hzero : list.outstanding = 0 := h.complete hlist
  have hout : list.outstanding = list.queue.length + Work.held crew := h.outstanding
  exact List.eq_nil_of_length_eq_zero (by omega)

theorem allFit_complete (h : Work.AllFit .draining crew) (hheld : Work.held crew = 0)
    (hcompleters : Work.completers crew = 0) : Work.AllFit .complete crew := by
  intro work hw
  have hfits := h work hw
  have hjob := Multiset.countP_eq_zero.mp hheld work hw
  have hcompleting := Multiset.countP_eq_zero.mp hcompleters work hw
  cases work <;> simp_all [Work.Fits, Work.holdsJob, Work.isCompleting]

/-- What a thread does at a list without changing its state or its count. -/
theorem Sound.change {list' : JobList α} {crew' : Multiset (Work α)} (h : Sound ⟨list, crew⟩)
    (hstate : list'.state = list.state) (hout : list'.outstanding = list'.queue.length + Work.held crew')
    (hsame : list'.outstanding = list.outstanding) (hcompleters : Work.completers crew' = Work.completers crew)
    (hclients : Work.clients crew' ≤ 1) (hfits : Work.AllFit list.state crew') : Sound ⟨list', crew'⟩ where
  outstanding := hout
  complete hlist := by rw [hsame]; exact h.complete (hstate ▸ hlist)
  completing hlist := by rw [hsame, hcompleters]; exact h.completing (hstate ▸ hlist)
  client := hclients
  fits := by simpa only [hstate] using hfits

theorem Sound.step (hd : d.Sound) (h : Step d effect d') (hp : d.Permits effect) : d'.Sound := by
  have hout := h.outstanding hd.outstanding
  have hclients := hd.client
  have hfits := hd.fits
  cases h with
  | rest => exact hd
  | turn h => exact hd.change rfl hout rfl h.completers (Nat.le_trans h.clients_le hclients) (h.fits hfits)
  | look h =>
      refine hd.change rfl hout rfl (by simp [Work.isCompleting]) (by simpa [Work.isClient] using hclients) ?_
      exact (Work.allFit_cons _ _ _).mpr ⟨by simp [Work.Fits, h], hfits⟩
  | @pop list crew job queue hqueue =>
      refine hd.change rfl hout rfl (by simp [Work.isCompleting]) (by simpa [Work.isClient] using hclients) ?_
      obtain ⟨hpopping, hrest⟩ := (Work.allFit_cons _ _ _).mp hfits
      refine (Work.allFit_cons _ _ _).mpr ⟨?_, hrest⟩
      -- the look was made before, but a list in which there is a job to take is still being drained
      cases hstate : list.state with
      | complete =>
          rw [hd.queue_of_complete hstate] at hqueue
          cases hqueue
      | filling => exact absurd hstate hpopping
      | draining => rfl
  | endJob list crew job panicked =>
      obtain ⟨hdraining, hrest⟩ := (Work.allFit_cons _ _ _).mp hfits
      rcases Work.afterJob_cases job panicked with ⟨_, he⟩ | ⟨_, _, he⟩ | ⟨_, _, he⟩ <;> rw [he] at hout ⊢ <;>
        exact hd.change rfl hout rfl (by simp [Work.isCompleting]) (by simpa [Work.isClient] using hclients)
          ((Work.allFit_cons _ _ _).mpr ⟨hdraining, hrest⟩)
  | endCallback list crew job panicked =>
      obtain ⟨hdraining, hrest⟩ := (Work.allFit_cons _ _ _).mp hfits
      rcases Work.afterCallback_cases (α := α) panicked with ⟨_, he⟩ | ⟨_, he⟩ <;> rw [he] at hout ⊢ <;>
        exact hd.change rfl hout rfl (by simp [Work.isCompleting]) (by simpa [Work.isClient] using hclients)
          ((Work.allFit_cons _ _ _).mpr ⟨hdraining, hrest⟩)
  | countPanic =>
      obtain ⟨hdraining, hrest⟩ := (Work.allFit_cons _ _ _).mp hfits
      exact hd.change rfl hout rfl (by simp [Work.isCompleting]) (by simpa [Work.isClient] using hclients)
        ((Work.allFit_cons _ _ _).mpr ⟨hdraining, hrest⟩)
  | @countDown list crew h =>
      obtain ⟨hdraining, hrest⟩ := (Work.allFit_cons _ _ _).mp hfits
      have hheld := hd.outstanding
      have hcompleting := hd.completing hdraining
      simp only [Work.held_cons, Work.completers_cons, Work.holdsJob, Work.isCompleting, if_true, Bool.false_eq_true,
        if_false, Nat.add_zero] at hheld hcompleting
      refine ⟨hout, fun hstate => ?_, fun _ => ?_, by simpa [Work.isClient] using hclients, hrest⟩
      · cases hdraining.symm.trans hstate
      · rw [if_neg (by omega)] at hcompleting
        rw [if_neg (by dsimp only; omega)]
        exact hcompleting
  | @countLast list crew h =>
      obtain ⟨hdraining, hrest⟩ := (Work.allFit_cons _ _ _).mp hfits
      have hcompleting : Work.completers crew = 0 := by simpa [Work.isCompleting, h] using hd.completing hdraining
      refine ⟨hout, fun hstate => ?_, fun _ => ?_, by simpa [Work.isClient] using hclients,
        (Work.allFit_cons _ _ _).mpr ⟨hdraining, hrest⟩⟩
      · cases hdraining.symm.trans hstate
      · simp [Work.isCompleting, h, hcompleting]
  | complete list crew =>
      obtain ⟨hdraining, hrest⟩ := (Work.allFit_cons _ _ _).mp hfits
      have hdraining : list.state = .draining := hdraining
      have hcompleting : 1 + Work.completers crew = if list.outstanding = 0 then 1 else 0 := by
        simpa [Work.isCompleting, Nat.add_comm] using hd.completing hdraining
      have hheld : list.outstanding = list.queue.length + Work.held crew := by
        simpa [Work.holdsJob] using hd.outstanding
      -- a thread completes a list only once nothing is outstanding, and then it is the only one that does
      have hzero : list.outstanding = 0 := by
        by_contra hne
        rw [if_neg hne] at hcompleting
        omega
      rw [if_pos hzero] at hcompleting
      have hleft : Work.AllFit .complete crew :=
        allFit_complete (by simpa only [hdraining] using hrest) (by omega) (by omega)
      exact ⟨hout, fun _ => hzero, nofun, by simpa [Work.isClient] using hclients, hleft⟩
  | arrive list crew work harrival =>
      obtain ⟨hothers, hfit⟩ := hp
      refine hd.change rfl hout rfl ?_ ?_ ((Work.allFit_cons _ _ _).mpr ⟨hfit, hfits⟩)
      · simp [(Work.of_isArrival harrival).2]
      · have hzero : Work.clients crew = 0 :=
          Multiset.countP_eq_zero.mpr fun other ho => by simp [hothers other ho]
        rw [Work.clients_cons, hzero]
        split <;> omega
  | claim _ _ h =>
      obtain rfl := hd.deserted h hp
      exact ⟨hout, nofun, nofun, by simp [Work.isClient], by simp [Work.Fits]⟩
  | reopen _ _ h =>
      obtain rfl := hd.deserted h hp
      exact ⟨hout, nofun, nofun, by simp, by simp⟩
  | refresh h => exact hd.change rfl hout rfl rfl hclients hfits
  | reset list crew next hnext | begin list crew next hnext =>
      obtain ⟨hfilling, hrest⟩ := (Work.allFit_cons _ _ _).mp hfits
      refine hd.change rfl hout rfl ?_ ?_ (hnext.fits hfilling hrest)
      · simp [hnext.completers, Work.isCompleting]
      · obtain rfl := hd.alone hfilling rfl
        exact hnext.clients_le
  | count list crew job =>
      obtain ⟨hfilling, hrest⟩ := (Work.allFit_cons _ _ _).mp hfits
      refine ⟨hout, fun hstate => ?_, fun hstate => ?_, by simpa [Work.isClient] using hclients,
        (Work.allFit_cons _ _ _).mpr ⟨hfilling, hrest⟩⟩
      · cases hfilling.symm.trans hstate
      · cases hfilling.symm.trans hstate
  | push list crew job next hnext =>
      obtain ⟨hfilling, hrest⟩ := (Work.allFit_cons _ _ _).mp hfits
      refine hd.change rfl hout rfl ?_ ?_ (hnext.fits hfilling hrest)
      · simp [hnext.completers, Work.isCompleting]
      · obtain rfl := hd.alone hfilling rfl
        exact hnext.clients_le
  | endEmpty h hnext =>
      obtain ⟨hfilling, hrest⟩ := (Work.allFit_cons _ _ _).mp hfits
      obtain rfl := hd.alone hfilling rfl
      rcases hnext with rfl | rfl <;>
        exact ⟨hout, fun _ => h, nofun, by simp [Work.beside, Work.isClient], by simp [Work.beside, Work.Fits]⟩
  | handOver h hnext =>
      obtain ⟨hfilling, hrest⟩ := (Work.allFit_cons _ _ _).mp hfits
      obtain rfl := hd.alone hfilling rfl
      rcases hnext with rfl | rfl <;>
        exact ⟨hout, nofun, fun _ => by simp [Work.beside, Work.isCompleting, h],
          by simp [Work.beside, Work.isClient], by simp [Work.beside, Work.Fits]⟩
  | handBack h =>
      obtain ⟨hfilling, hrest⟩ := (Work.allFit_cons _ _ _).mp hfits
      obtain rfl := hd.alone hfilling rfl
      exact ⟨hout, fun _ => h, nofun, by simp, by simp⟩

end Desk

end FrameEngine.Jobs
