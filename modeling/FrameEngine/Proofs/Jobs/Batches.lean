import FrameEngine.Proofs.Jobs.Desk
import Mathlib.Data.Multiset.Bind
import Mathlib.Data.Multiset.OrderedMonoid

namespace FrameEngine.Jobs

variable {α : Type}

namespace Work

def pushes : Work α → Multiset (Job α)
  | .pushing job => {job}
  | _ => 0

def runs : Work α → Multiset (Job α)
  | .running job => {job}
  | _ => 0

def callsBack : Work α → Multiset (Job α)
  | .callingBack job => {job}
  | _ => 0

def isBare : Work α → Bool
  | .pushing _ | .running _ | .callingBack _ | .countingPanic | .resetting => false
  | _ => true

def panicsToCount (crew : Multiset (Work α)) : Nat := crew.countP (·.isCountingPanic)

section After

variable (job : Job α) (panicked : Bool)

@[simp] theorem pushes_afterJob : (afterJob job panicked).pushes = 0 := by
  rcases afterJob_cases job panicked with ⟨_, he⟩ | ⟨_, _, he⟩ | ⟨_, _, he⟩ <;> rw [he] <;> rfl

@[simp] theorem runs_afterJob : (afterJob job panicked).runs = 0 := by
  rcases afterJob_cases job panicked with ⟨_, he⟩ | ⟨_, _, he⟩ | ⟨_, _, he⟩ <;> rw [he] <;> rfl

@[simp] theorem callsBack_afterJob :
    (afterJob job panicked).callsBack = if !panicked && job.hasCallback then {job} else 0 := by
  rcases afterJob_cases job panicked with ⟨rfl, he⟩ | ⟨rfl, hcallback, he⟩ | ⟨rfl, hcallback, he⟩ <;>
    simp [callsBack, *]

@[simp] theorem isCountingPanic_afterJob : (afterJob job panicked).isCountingPanic = panicked := by
  rcases afterJob_cases job panicked with ⟨rfl, he⟩ | ⟨rfl, _, he⟩ | ⟨rfl, _, he⟩ <;> rw [he] <;> rfl

@[simp] theorem pushes_afterCallback : (afterCallback panicked : Work α).pushes = 0 := by
  cases panicked <;> rfl

@[simp] theorem runs_afterCallback : (afterCallback panicked : Work α).runs = 0 := by
  cases panicked <;> rfl

@[simp] theorem callsBack_afterCallback : (afterCallback panicked : Work α).callsBack = 0 := by
  cases panicked <;> rfl

@[simp] theorem isCountingPanic_afterCallback :
    (afterCallback panicked : Work α).isCountingPanic = panicked := by
  cases panicked <;> rfl

end After

theorem bind_swap (f : Work α → Multiset (Job α)) {old new : Work α} (crew : Multiset (Work α))
    (h : f new = f old) : (new ::ₘ crew).bind f = (old ::ₘ crew).bind f := by
  rw [Multiset.cons_bind, Multiset.cons_bind, h]

theorem bind_of_zero {f : Work α → Multiset (Job α)} {work : Work α} (crew : Multiset (Work α))
    (h : f work = 0) : (work ::ₘ crew).bind f = crew.bind f := by
  rw [Multiset.cons_bind, h, Multiset.zero_add]

theorem pushes_of_isBare (work : Work α) (h : work.isBare) : work.pushes = 0 := by
  cases work <;> first | rfl | cases h

theorem runs_of_isBare (work : Work α) (h : work.isBare) : work.runs = 0 := by
  cases work <;> first | rfl | cases h

theorem callsBack_of_isBare (work : Work α) (h : work.isBare) : work.callsBack = 0 := by
  cases work <;> first | rfl | cases h

section Bare

variable {work : Work α} (crew : Multiset (Work α)) {next : Option (Work α)}

@[simp] theorem panicsToCount_cons : panicsToCount (work ::ₘ crew) =
    panicsToCount crew + if work.isCountingPanic then 1 else 0 :=
  Multiset.countP_cons _ _ _

theorem bind_of_isBare {f : Work α → Multiset (Job α)} (hf : ∀ work : Work α, work.isBare → f work = 0)
    (h : ∀ work ∈ next, work.isBare) : (beside crew next).bind f = crew.bind f := by
  cases next with
  | none => rfl
  | some work => exact bind_of_zero crew (hf work (h work rfl))

theorem panicsToCount_of_isBare (h : ∀ work ∈ next, work.isBare) :
    panicsToCount (beside crew next) = panicsToCount crew := by
  cases next with
  | none => rfl
  | some work =>
      have hwork := h work rfl
      cases work <;> first | exact panicsToCount_cons crew | cases hwork

theorem resetting_mem_of_isBare (h : ∀ work ∈ next, work.isBare) :
    .resetting ∈ beside crew next ↔ .resetting ∈ crew := by
  cases next with
  | none => rfl
  | some work =>
      have hwork := h work rfl
      rw [beside, Multiset.mem_cons, or_iff_right]
      rintro rfl
      cases hwork

theorem Turns.isBare {list : JobList α} (h : Turns list work next) :
    work.isBare ∧ ∀ work ∈ next, work.isBare := by
  cases h <;> simp [Work.isBare]

theorem Continues.isBare (h : Continues next) : ∀ work ∈ next, work.isBare := by
  unfold Continues at h
  split at h <;> simp_all [Work.isBare]

end Bare

end Work

/-- A batch: who opened the list for it, the jobs it was opened for if they were known, and what its jobs
have gone through. -/
structure Batch (α : Type) where
  holder : Option Nat := none
  asked : List (Job α) := []
  added : Multiset (Job α) := 0
  started : Multiset (Job α) := 0
  ended : Multiset (Job α × Bool) := 0
  calledBack : Multiset (Job α × Bool) := 0

namespace Batch

def note (b : Batch α) : Effect α → Batch α
  | .quiet | .arrived _ => b
  | .opened thread jobs => { holder := some thread, asked := jobs }
  | .added job => { b with added := job ::ₘ b.added }
  | .started job => { b with started := job ::ₘ b.started }
  | .ended job panicked => { b with ended := (job, panicked) ::ₘ b.ended }
  | .calledBack job panicked => { b with calledBack := (job, panicked) ::ₘ b.calledBack }

def panics (b : Batch α) : Nat := b.ended.countP (·.2) + b.calledBack.countP (·.2)

def due (b : Batch α) : Multiset (Job α) := (b.ended.filter fun e => !e.2 && e.1.hasCallback).map Prod.fst

@[simp] theorem due_ended (b : Batch α) (job : Job α) (panicked : Bool) :
    (b.note (.ended job panicked)).due = (if !panicked && job.hasCallback then {job} else 0) + b.due := by
  cases panicked <;> cases hcallback : job.hasCallback <;> simp [due, note, hcallback]

theorem panics_ended (b : Batch α) (job : Job α) (panicked : Bool) :
    (b.note (.ended job panicked)).panics = b.panics + if panicked then 1 else 0 := by
  simp only [panics, note, Multiset.countP_cons]
  omega

theorem panics_calledBack (b : Batch α) (job : Job α) (panicked : Bool) :
    (b.note (.calledBack job panicked)).panics = b.panics + if panicked then 1 else 0 := by
  simp only [panics, note, Multiset.countP_cons]
  omega

/-- Each job of the batch has run once, and has been called back once if that was due. -/
structure Finished (b : Batch α) : Prop where
  started : b.started = b.added
  ended : b.ended.map Prod.fst = b.added
  calledBack : b.calledBack.map Prod.fst = b.due

end Batch

namespace Desk

open Work (beside)

structure Keeps (d : Desk α) (b : Batch α) : Prop where
  added : b.added = ↑d.list.queue + d.crew.bind Work.pushes + b.started
  started : b.started = d.crew.bind Work.runs + b.ended.map Prod.fst
  due : b.due = d.crew.bind Work.callsBack + b.calledBack.map Prod.fst
  panics : .resetting ∈ d.crew ∨ d.list.panicked + Work.panicsToCount d.crew = b.panics
  filling : d.list.state = .filling → b.started = 0

variable {list : JobList α} {crew : Multiset (Work α)} {work : Work α} {d d' : Desk α} {effect : Effect α}
  {b : Batch α}

theorem Keeps.no_panics (h : d.Keeps b) (hb : b.started = 0) : b.panics = 0 := by
  have hended : b.ended = 0 := by
    have hsum := h.started
    rw [hb, eq_comm, add_eq_zero] at hsum
    exact Multiset.map_eq_zero.mp hsum.2
  have hcalledBack : b.calledBack = 0 := by
    have hsum := h.due
    rw [Batch.due, hended, Multiset.filter_zero, Multiset.map_zero, eq_comm, add_eq_zero] at hsum
    exact Multiset.map_eq_zero.mp hsum.2
  simp only [Batch.panics, hended, hcalledBack, Multiset.countP_zero]

/-- A thread goes on while the jobs stay where they are. -/
theorem Keeps.exchange {list' : JobList α} (old new : Option (Work α)) (h : Keeps ⟨list, beside crew old⟩ b)
    (hold : ∀ work ∈ old, work.isBare) (hnew : ∀ work ∈ new, work.isBare) (hqueue : list'.queue = list.queue)
    (hpanicked : list'.panicked = list.panicked) (hfilling : list'.state = .filling → list.state = .filling) :
    Keeps ⟨list', beside crew new⟩ b where
  added := by
    have hadded := h.added
    rw [Work.bind_of_isBare crew Work.pushes_of_isBare hold] at hadded
    rw [Work.bind_of_isBare crew Work.pushes_of_isBare hnew, hqueue, hadded]
  started := by
    have hstarted := h.started
    rw [Work.bind_of_isBare crew Work.runs_of_isBare hold] at hstarted
    rw [Work.bind_of_isBare crew Work.runs_of_isBare hnew, hstarted]
  due := by
    have hdue := h.due
    rw [Work.bind_of_isBare crew Work.callsBack_of_isBare hold] at hdue
    rw [Work.bind_of_isBare crew Work.callsBack_of_isBare hnew, hdue]
  panics := by
    have hpanics := h.panics
    rw [Work.resetting_mem_of_isBare crew hold, Work.panicsToCount_of_isBare crew hold] at hpanics
    rw [Work.resetting_mem_of_isBare crew hnew, Work.panicsToCount_of_isBare crew hnew, hpanicked]
    exact hpanics
  filling hlist := h.filling (hfilling hlist)

theorem Keeps.setBack {crew' : Multiset (Work α)} (h : Keeps ⟨list, crew⟩ b) (hlist : list.state = .filling)
    (hcrew' : Work.AllFit .filling crew') (hpushes : crew'.bind Work.pushes = crew.bind Work.pushes)
    (hruns : crew'.bind Work.runs = crew.bind Work.runs)
    (hcallsBack : crew'.bind Work.callsBack = crew.bind Work.callsBack) :
    Keeps ⟨{ list with panicked := 0 }, crew'⟩ b where
  added := by rw [hpushes]; exact h.added
  started := by rw [hruns]; exact h.started
  due := by rw [hcallsBack]; exact h.due
  panics := by
    have hnone : Work.panicsToCount crew' = 0 := by
      refine Multiset.countP_eq_zero.mpr fun work hw hcounting => ?_
      have hfits := hcrew' work hw
      cases work <;> cases hcounting
      cases hfits
    rw [h.no_panics (h.filling hlist), hnone]
    exact Or.inr rfl
  filling _ := h.filling hlist

/-- A complete list at which nobody is has nothing left of the batch before. -/
theorem Keeps.opened {list' : JobList α} {crew' : Multiset (Work α)} {thread : Nat} {jobs : List (Job α)}
    (hqueue : list'.queue = []) (hpushes : crew'.bind Work.pushes = 0) (hruns : crew'.bind Work.runs = 0)
    (hcallsBack : crew'.bind Work.callsBack = 0)
    (hpanics : .resetting ∈ crew' ∨ list'.panicked + Work.panicsToCount crew' = 0) :
    Keeps ⟨list', crew'⟩ { holder := some thread, asked := jobs } where
  added := by rw [hqueue, hpushes]; rfl
  started := by rw [hruns]; rfl
  due := by rw [hcallsBack]; rfl
  panics := hpanics
  filling _ := rfl

theorem Keeps.endJob {job : Job α} {panicked : Bool} (hk : Keeps ⟨list, .running job ::ₘ crew⟩ b)
    (hlist : list.state = .draining) :
    Keeps ⟨list, .afterJob job panicked ::ₘ crew⟩ (b.note (.ended job panicked)) where
  added := by
    have hadded : b.added = ↑list.queue + crew.bind Work.pushes + b.started := by
      simpa [Work.pushes] using hk.added
    rw [Multiset.cons_bind, Work.pushes_afterJob, Multiset.zero_add]
    exact hadded
  started := by
    have hstarted : b.started = crew.bind Work.runs + job ::ₘ b.ended.map Prod.fst := by
      simpa [Work.runs] using hk.started
    rw [Multiset.cons_bind, Work.runs_afterJob, Multiset.zero_add]
    exact hstarted.trans (congrArg _ (Multiset.map_cons Prod.fst (job, panicked) b.ended).symm)
  due := by
    have hdue : b.due = crew.bind Work.callsBack + b.calledBack.map Prod.fst := by
      simpa [Work.callsBack] using hk.due
    rw [Batch.due_ended, hdue, Multiset.cons_bind, Work.callsBack_afterJob, Multiset.add_assoc]
    rfl
  panics := by
    have hpanics : .resetting ∈ crew ∨ list.panicked + Work.panicsToCount crew = b.panics := by
      simpa [Work.isCountingPanic] using hk.panics
    refine hpanics.imp (Multiset.mem_cons_of_mem ·) fun hp => ?_
    rw [Batch.panics_ended, Work.panicsToCount_cons, Work.isCountingPanic_afterJob, ← hp, Nat.add_assoc]
  filling h := by cases hlist.symm.trans h

theorem Keeps.endCallback {job : Job α} {panicked : Bool} (hk : Keeps ⟨list, .callingBack job ::ₘ crew⟩ b)
    (hlist : list.state = .draining) :
    Keeps ⟨list, .afterCallback panicked ::ₘ crew⟩ (b.note (.calledBack job panicked)) where
  added := by
    have hadded : b.added = ↑list.queue + crew.bind Work.pushes + b.started := by
      simpa [Work.pushes] using hk.added
    rw [Multiset.cons_bind, Work.pushes_afterCallback, Multiset.zero_add]
    exact hadded
  started := by
    have hstarted : b.started = crew.bind Work.runs + b.ended.map Prod.fst := by
      simpa [Work.runs] using hk.started
    rw [Multiset.cons_bind, Work.runs_afterCallback, Multiset.zero_add]
    exact hstarted
  due := by
    have hdue : b.due = crew.bind Work.callsBack + job ::ₘ b.calledBack.map Prod.fst := by
      simpa [Work.callsBack] using hk.due
    rw [Multiset.cons_bind, Work.callsBack_afterCallback, Multiset.zero_add]
    exact hdue.trans (congrArg _ (Multiset.map_cons Prod.fst (job, panicked) b.calledBack).symm)
  panics := by
    have hpanics : .resetting ∈ crew ∨ list.panicked + Work.panicsToCount crew = b.panics := by
      simpa [Work.isCountingPanic] using hk.panics
    refine hpanics.imp (Multiset.mem_cons_of_mem ·) fun hp => ?_
    rw [Batch.panics_calledBack, Work.panicsToCount_cons, Work.isCountingPanic_afterCallback, ← hp, Nat.add_assoc]
  filling h := by cases hlist.symm.trans h

theorem Keeps.pop {job : Job α} {queue : List (Job α)} (hk : Keeps ⟨list, .popping ::ₘ crew⟩ b)
    (hlist : list.state ≠ .filling) (hqueue : list.queue = job :: queue) :
    Keeps ⟨{ list with queue := queue }, .running job ::ₘ crew⟩ (b.note (.started job)) where
  added := by
    have hadded : b.added = ↑(job :: queue) + crew.bind Work.pushes + b.started := by
      simpa [Work.pushes, hqueue] using hk.added
    rw [← Multiset.cons_coe, Multiset.cons_add, Multiset.cons_add, ← Multiset.add_cons] at hadded
    rw [Work.bind_of_zero crew rfl]
    exact hadded
  started := by simpa [Work.runs, Batch.note] using hk.started
  due := hk.due.trans (congrArg (· + _) (Work.bind_swap Work.callsBack crew rfl))
  panics := hk.panics.imp (by simp) (by simp [Work.isCountingPanic, Batch.panics, Batch.note])
  filling h := absurd h hlist

theorem Keeps.countPanic (hk : Keeps ⟨list, .countingPanic ::ₘ crew⟩ b) :
    Keeps ⟨{ list with panicked := list.panicked + 1 }, .countingDown ::ₘ crew⟩ b where
  added := by simpa [Work.pushes] using hk.added
  started := by simpa [Work.runs] using hk.started
  due := by simpa [Work.callsBack] using hk.due
  panics := by simpa [Work.isCountingPanic, Nat.add_assoc, Nat.add_comm 1] using hk.panics
  filling := hk.filling

theorem Keeps.count {job : Job α} (hk : Keeps ⟨list, .counting job ::ₘ crew⟩ b) :
    Keeps ⟨{ list with outstanding := list.outstanding + 1 }, .pushing job ::ₘ crew⟩ (b.note (.added job)) where
  added := by simpa [Work.pushes, Batch.note] using hk.added
  started := hk.started.trans (congrArg (· + _) (Work.bind_swap Work.runs crew rfl))
  due := hk.due.trans (congrArg (· + _) (Work.bind_swap Work.callsBack crew rfl))
  panics := hk.panics.imp (by simp) (by simp [Work.isCountingPanic, Batch.panics, Batch.note])
  filling := hk.filling

theorem Keeps.push {job : Job α} {next : Option (Work α)} (hk : Keeps ⟨list, .pushing job ::ₘ crew⟩ b)
    (hnext : ∀ work ∈ next, work.isBare) :
    Keeps ⟨{ list with queue := list.queue ++ [job] }, beside crew next⟩ b where
  added := by
    have hadded : b.added = ↑list.queue + (job ::ₘ crew.bind Work.pushes) + b.started := by
      simpa [Work.pushes] using hk.added
    rw [Work.bind_of_isBare crew Work.pushes_of_isBare hnext, hadded, ← Multiset.coe_add, Multiset.coe_singleton,
      ← Multiset.singleton_add, ← Multiset.add_assoc]
  started := by
    rw [Work.bind_of_isBare crew Work.runs_of_isBare hnext]
    simpa [Work.runs] using hk.started
  due := by
    rw [Work.bind_of_isBare crew Work.callsBack_of_isBare hnext]
    simpa [Work.callsBack] using hk.due
  panics := by
    rw [Work.panicsToCount_of_isBare crew hnext, Work.resetting_mem_of_isBare crew hnext]
    simpa [Work.isCountingPanic] using hk.panics
  filling := hk.filling

theorem Keeps.step (hk : d.Keeps b) (hd : d.Sound) (h : Step d effect d') (hp : d.Permits effect) :
    d'.Keeps (b.note effect) := by
  have hfits := hd.fits
  cases h with
  | rest => exact hk
  | @turn list crew work next h =>
      exact Keeps.exchange (some work) next hk (by simpa using h.isBare.1) h.isBare.2 rfl rfl id
  | look h => exact Keeps.exchange none (some .popping) hk (by simp) (by simp [Work.isBare]) rfl rfl id
  | @pop list crew job queue hqueue => exact hk.pop ((Work.allFit_cons _ _ _).mp hfits).1 hqueue
  | endJob list crew job panicked => exact hk.endJob ((Work.allFit_cons _ _ _).mp hfits).1
  | endCallback list crew job panicked => exact hk.endCallback ((Work.allFit_cons _ _ _).mp hfits).1
  | countPanic => exact hk.countPanic
  | @countDown list crew h =>
      exact Keeps.exchange (some .countingDown) none hk (by simp [Work.isBare]) (by simp) rfl rfl id
  | @countLast list crew h =>
      exact Keeps.exchange (some .countingDown) (some .completing) hk (by simp [Work.isBare])
        (by simp [Work.isBare]) rfl rfl id
  | complete list crew =>
      exact Keeps.exchange (some .completing) none hk (by simp [Work.isBare]) (by simp) rfl rfl nofun
  | arrive list crew work harrival =>
      refine Keeps.exchange none (some work) hk (by simp) ?_ rfl rfl id
      cases work <;> simp_all [Work.isArrival, Work.isBare]
  | @claim list crew thread jobs h =>
      -- here the old batch is left behind: nobody may be at the list, or what it still does counts for the new one
      obtain rfl := hd.deserted h hp
      exact .opened (hd.queue_of_complete h) rfl rfl rfl (Or.inl (Multiset.mem_cons_self _ _))
  | @reopen list crew thread jobs h =>
      obtain rfl := hd.deserted h hp
      exact .opened (hd.queue_of_complete h) rfl rfl rfl (Or.inr rfl)
  | @refresh list crew h => exact hk.setBack h (by rwa [h] at hfits) rfl rfl rfl
  | reset list crew next hnext | begin list crew next hnext =>
      obtain ⟨hfilling, hrest⟩ := (Work.allFit_cons _ _ _).mp hfits
      obtain rfl := hd.alone hfilling rfl
      have hbare := hnext.isBare
      exact hk.setBack hfilling (hnext.fits rfl (Work.allFit_zero _))
        (Work.bind_of_isBare _ Work.pushes_of_isBare hbare) (Work.bind_of_isBare _ Work.runs_of_isBare hbare)
        (Work.bind_of_isBare _ Work.callsBack_of_isBare hbare)
  | count list crew job => exact hk.count
  | push list crew job next hnext => exact hk.push hnext.isBare
  | @endEmpty list crew next h hnext =>
      refine Keeps.exchange (some .ending) next hk (by simp [Work.isBare]) ?_ rfl rfl nofun
      rcases hnext with rfl | rfl <;> simp [Work.isBare]
  | @handOver list crew next h hnext =>
      refine Keeps.exchange (some .ending) next hk (by simp [Work.isBare]) ?_ rfl rfl nofun
      rcases hnext with rfl | rfl <;> simp [Work.isBare]
  | @handBack list crew h =>
      exact Keeps.exchange (some .handingBack) none hk (by simp [Work.isBare]) (by simp) rfl rfl nofun

theorem jobs_of_not_holdsJob (work : Work α) (h : work.holdsJob = false) :
    work.pushes = 0 ∧ work.runs = 0 ∧ work.callsBack = 0 := by
  cases work <;> first | exact ⟨rfl, rfl, rfl⟩ | cases h

theorem bind_of_held (h : Work.held crew = 0) (f : Work α → Multiset (Job α))
    (hf : ∀ w, w.holdsJob = false → f w = 0) : crew.bind f = 0 := by
  refine Multiset.eq_zero_of_forall_notMem fun job hjob => ?_
  obtain ⟨w, hw, hjob⟩ := Multiset.mem_bind.mp hjob
  have hheld := Multiset.countP_eq_zero.mp h w hw
  rw [hf w (by simpa using hheld)] at hjob
  exact Multiset.notMem_zero _ hjob

/-- A complete list has finished its batch, and holds its count of panics. -/
theorem Keeps.finished (hk : Keeps ⟨list, crew⟩ b) (hd : Sound ⟨list, crew⟩) (hlist : list.state = .complete) :
    b.Finished ∧ list.panicked = b.panics := by
  have hqueue := hd.queue_of_complete hlist
  have hheld : Work.held crew = 0 := by
    have hzero : list.outstanding = 0 := hd.complete hlist
    have hout : list.outstanding = list.queue.length + Work.held crew := hd.outstanding
    omega
  have hadded : b.added = b.started := by
    have hsum := hk.added
    rw [bind_of_held hheld Work.pushes fun w hw => (jobs_of_not_holdsJob w hw).1] at hsum
    simpa [hqueue] using hsum
  have hstarted : b.started = b.ended.map Prod.fst := by
    have hsum := hk.started
    rwa [bind_of_held hheld Work.runs fun w hw => (jobs_of_not_holdsJob w hw).2.1, Multiset.zero_add] at hsum
  have hdue : b.due = b.calledBack.map Prod.fst := by
    have hsum := hk.due
    rwa [bind_of_held hheld Work.callsBack fun w hw => (jobs_of_not_holdsJob w hw).2.2, Multiset.zero_add] at hsum
  refine ⟨⟨hadded.symm, hstarted.symm.trans hadded.symm, hdue.symm⟩, ?_⟩
  rcases hk.panics with hresetting | hpanics
  · have hfits := hd.fits _ hresetting
    cases hlist.symm.trans hfits
  · have hnone : Work.panicsToCount crew = 0 := by
      refine Multiset.countP_eq_zero.mpr fun w hw hcounting => ?_
      have hjob := Multiset.countP_eq_zero.mp hheld w hw
      cases w <;> cases hcounting
      exact hjob rfl
    rwa [hnone, Nat.add_zero] at hpanics

theorem card_bind_pushes (h : Work.AllFit .filling crew) : (crew.bind Work.pushes).card = Work.held crew := by
  induction crew using Multiset.induction_on with
  | empty => rfl
  | cons work crew ih =>
      obtain ⟨hwork, hcrew⟩ := (Work.allFit_cons _ _ _).mp h
      rw [Multiset.cons_bind, Multiset.card_add, ih hcrew, Work.held_cons, Nat.add_comm]
      congr 1
      cases work <;> first | rfl | cases hwork

structure Fresh (d : Desk α) (b : Batch α) : Prop where
  started : b.started = 0
  queue : ↑d.list.queue ≤ b.added
  outstanding : d.list.outstanding = b.added.card
  panicked : .resetting ∈ d.crew ∨ d.list.panicked = 0

theorem Keeps.fresh (hk : Keeps ⟨list, crew⟩ b) (hd : Sound ⟨list, crew⟩) (hlist : list.state = .filling) :
    Fresh ⟨list, crew⟩ b := by
  have hstarted := hk.filling hlist
  have hadded : b.added = ↑list.queue + crew.bind Work.pushes := by
    have hsum := hk.added
    rwa [hstarted, Multiset.add_zero] at hsum
  have hfits : Work.AllFit .filling crew := by
    have hall := hd.fits
    rwa [hlist] at hall
  refine ⟨hstarted, ?_, ?_, ?_⟩
  · rw [hadded]
    exact Multiset.le_add_right _ _
  · rw [hadded, Multiset.card_add, card_bind_pushes hfits, Multiset.coe_card]
    exact hd.outstanding
  · refine hk.panics.imp id fun hp => ?_
    rw [hk.no_panics hstarted] at hp
    exact (Nat.add_eq_zero_iff.mp hp).1

end Desk

end FrameEngine.Jobs
