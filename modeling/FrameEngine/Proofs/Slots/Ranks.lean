import FrameEngine.Proofs.Slots.Turns
import Mathlib.Algebra.BigOperators.Group.Multiset.Basic
import Mathlib.Algebra.Group.Nat.Defs

namespace FrameEngine.Slots

namespace Threads

variable {κ ρ : Type} {N : Nat}

def Phase.rank (n retry : Nat) : Phase ρ N → Nat
  | .aliasing _ => 1
  | .counting _ => 2
  | .announcing _ => 2 * n + 3
  | .marking _ => 2 * n + 4
  | .storing _ _ => 2 * n + 5
  | .announcingFailure _ => 2 * n + 1 + retry
  | .clearing _ _ => 2 * n + 2 + retry
  | .loading _ | .asleep _ => 2 * n + 6 + retry
  | .lookingUp => 2 * n + 7 + retry
  | .woken _ => 2 * n + 8 + retry

theorem key_wake (c : Call κ ρ N) : c.wake.key = c.key := by
  rw [Call.wake]
  split <;> rfl

theorem rank_phase_wake_le (n retry : Nat) (c : Call κ ρ N) :
    c.wake.phase.rank n retry ≤ c.phase.rank n retry + 2 := by
  rw [Call.wake]
  split
  next slot hphase =>
    rw [hphase, Phase.rank, Phase.rank]
    omega
  · exact Nat.le_add_right _ 2

variable [DecidableEq κ]

def Call.rank (placeholder : κ) (n : Nat) (c : Call κ ρ N) : Nat :=
  c.phase.rank n (if c.key = placeholder then 0 else 2 * n + 7)

def Progress.rank (placeholder : κ) (n : Nat) : Progress κ ρ N → Nat
  | .goOn c => c.rank placeholder n
  | .ended _ => 0

def rankOf (placeholder : κ) (n : Nat) (calls : Multiset (Call κ ρ N)) : Nat :=
  (calls.map fun c => c.rank placeholder n).sum

variable {setting : Setting κ} {outcome : κ → Except LoadError ρ} {placeholder : κ} {n : Nat}

theorem rankOf_cons (c : Call κ ρ N) (calls : Multiset (Call κ ρ N)) :
    rankOf placeholder n (c ::ₘ calls) = c.rank placeholder n + rankOf placeholder n calls := by
  rw [rankOf, Multiset.map_cons, Multiset.sum_cons]
  rfl

theorem rankOf_progress (progress : Progress κ ρ N) (calls : Multiset (Call κ ρ N)) :
    rankOf placeholder n (progress.calls + calls) = progress.rank placeholder n + rankOf placeholder n calls := by
  cases progress with
  | goOn c => exact rankOf_cons c calls
  | ended result => rw [Progress.calls, Progress.rank, Multiset.zero_add, Nat.zero_add]

theorem rank_found_le (c : Call κ ρ N) (slot : Fin N) : (c.found slot).rank placeholder n ≤ 1 := by
  rw [Call.found]
  split
  · exact Nat.zero_le 1
  · exact Nat.le_refl 1

theorem rank_failed_le (c : Call κ ρ N) (cause : LoadError) :
    (c.failed setting cause).rank setting.placeholder n ≤ if c.key = setting.placeholder then 0 else 2 * n + 7 := by
  cases cause with
  | fatal cause => exact Nat.zero_le _
  | unavailable reason =>
      rw [Call.failed]
      by_cases he : c.key = setting.placeholder
      · rw [if_pos he, if_pos he]
        exact Nat.le_refl 0
      · rw [if_neg he, if_neg he, Progress.rank, Call.rank, if_pos rfl]
        exact Nat.le_refl _

/-- A call comes closer to its end by more than it can set back `n` others. -/
theorem Acts.rank_lt {t t' : Table κ ρ N} {c : Call κ ρ N} {progress : Progress κ ρ N} {new : List κ}
    {wakes : Bool} (h : Acts setting outcome t c progress t' new wakes) (n : Nat) :
    progress.rank setting.placeholder n + (if wakes then 2 * n else 0) < c.rank setting.placeholder n := by
  have hgoOn (phase : Phase ρ N) : (Progress.goOn { c with phase := phase }).rank setting.placeholder n =
      phase.rank n (if c.key = setting.placeholder then 0 else 2 * n + 7) := rfl
  have hfound (slot : Fin N) : (c.found slot).rank setting.placeholder n ≤ 1 := rank_found_le c slot
  have hfailed (cause : LoadError) : (c.failed setting cause).rank setting.placeholder n ≤
      if c.key = setting.placeholder then 0 else 2 * n + 7 := rank_failed_le c cause
  rw [Call.rank]
  generalize (if c.key = setting.placeholder then 0 else 2 * n + 7) = retry at hgoOn hfailed ⊢
  cases h with
  | hit hphase | find hphase | count hphase =>
      rw [hphase]
      refine Nat.lt_of_le_of_lt (hfound _) ?_
      simp only [Phase.rank]
      omega
  | giveUp hphase =>
      rw [hphase]
      refine Nat.lt_of_le_of_lt (Nat.add_le_add_right (hfailed _) _) ?_
      simp only [Phase.rank, if_true]
      omega
  | announce hphase =>
      rw [hphase, hgoOn]
      simp only [Phase.rank, if_true]
      omega
  | full hphase | standIn hphase =>
      rw [hphase]
      simp only [Phase.rank, Progress.rank, Bool.false_eq_true, if_false]
      omega
  | wait hphase | reserve hphase | waitOn hphase | retry hphase | succeed hphase | fail hphase | store hphase
  | mark hphase | clear hphase =>
      rw [hphase, hgoOn]
      simp only [Phase.rank, Bool.false_eq_true, if_false]
      omega

theorem rank_wake_le (c : Call κ ρ N) : c.wake.rank placeholder n ≤ c.rank placeholder n + 2 := by
  rw [Call.rank, key_wake]
  exact rank_phase_wake_le n _ c

theorem rank_wakeIf_le (wakes : Bool) (calls : Multiset (Call κ ρ N)) :
    rankOf placeholder n (wakeIf wakes calls) ≤
      rankOf placeholder n calls + if wakes then 2 * calls.card else 0 := by
  cases wakes with
  | false => exact Nat.le_refl _
  | true =>
      rw [wakeIf, if_pos rfl, if_pos rfl]
      induction calls using Multiset.induction_on with
      | empty => exact Nat.zero_le _
      | cons c calls ih =>
          have hc : c.wake.rank placeholder n ≤ c.rank placeholder n + 2 := rank_wake_le c
          rw [Multiset.map_cons, rankOf_cons, rankOf_cons, Multiset.card_cons]
          omega

theorem Crowd.Step.rank_lt {x y : Crowd κ ρ N} (h : Crowd.Step setting outcome x y) (hn : x.calls.card ≤ n) :
    rankOf setting.placeholder n y.calls < rankOf setting.placeholder n x.calls := by
  cases h with
  | @turn t c progress t' new wakes rest results entered hacts =>
      have hcard : rest.card ≤ n := (Multiset.card_le_card (Multiset.le_cons_self rest c)).trans hn
      have hothers : rankOf setting.placeholder n (wakeIf wakes rest) ≤
          rankOf setting.placeholder n rest + if wakes then 2 * n else 0 := by
        refine (rank_wakeIf_le wakes rest).trans ?_
        split <;> omega
      have hown := hacts.rank_lt n
      calc rankOf setting.placeholder n (progress.calls + wakeIf wakes rest)
          = progress.rank setting.placeholder n + rankOf setting.placeholder n (wakeIf wakes rest) :=
            rankOf_progress progress _
        _ < c.rank setting.placeholder n + rankOf setting.placeholder n rest := by omega
        _ = rankOf setting.placeholder n (c ::ₘ rest) := (rankOf_cons c rest).symm

theorem rankOf_ofCalls_le (table : Table κ ρ N) (keys : List κ) (n : Nat) :
    rankOf placeholder n (Machine.ofCalls table keys).crowd.calls ≤ keys.length * (4 * n + 14) := by
  rw [Machine.crowd, calls_ofCalls]
  dsimp only
  induction keys with
  | nil => exact Nat.zero_le _
  | cons key keys ih =>
      have hkey : (⟨key, key, .lookingUp⟩ : Call κ ρ N).rank placeholder n ≤ 4 * n + 14 := by
        rw [Call.rank, Phase.rank]
        split <;> omega
      rw [List.map_cons, ← Multiset.cons_coe, rankOf_cons, List.length_cons, Nat.succ_mul]
      omega

end Threads

end FrameEngine.Slots
