import FrameEngine.Proofs.Slots.Sessions
import FrameEngine.Proofs.Slots.Threads
import Mathlib.Algebra.Order.Group.Multiset
import Mathlib.Tactic.Abel

namespace FrameEngine.Slots

open Threads

variable {σ κ ρ : Type} {N : Nat}

def SlotState.isLoading : SlotState κ → Bool
  | .loading _ => true
  | _ => false

def SlotState.isResident : SlotState κ → Bool
  | .resident _ => true
  | _ => false

def Work.carried? : Work κ ρ N → Option ρ
  | .storing _ _ resource => some resource
  | _ => none

def Work.isUncounted : Work κ ρ N → Bool
  | .storing _ _ _ | .marking _ _ | .counting => true
  | .loading _ _ | .clearing _ _ => false

def carried (works : Multiset (Work κ ρ N)) : Multiset ρ := works.filterMap Work.carried?

def uncounted (works : Multiset (Work κ ρ N)) : Nat := works.countP fun w => w.isUncounted

namespace Table

def resourcesIn (t : Table κ ρ N) (p : SlotState κ → Bool) : Multiset ρ :=
  (List.finRange N).filterMap fun s => if p (t.states.get s) then t.contents.get s else none

def residents (t : Table κ ρ N) : Nat := (List.finRange N).countP fun s => (t.states.get s).isResident

theorem resources_eq (t : Table κ ρ N) : t.resources = (List.finRange N).filterMap t.contents.get := by
  have hlist : t.contents.toList = (List.finRange N).map t.contents.get :=
    List.ext_getElem (by simp) fun i _ _ => by simp [Vector.get]
  rw [resources, hlist, List.filterMap_map]
  rfl

end Table

theorem filterMap_cons_toList {α β : Type} (f : α → Option β) (a : α) (l : List α) :
    (a :: l).filterMap f = (f a).toList ++ l.filterMap f := by
  rw [List.filterMap_cons]
  cases f a <;> rfl

theorem filterMap_id_set (l : List (Option ρ)) {i : Nat} (h : i < l.length) (a : Option ρ) :
    ((l.set i a).filterMap id : Multiset ρ) + l[i].toList = l.filterMap id + a.toList := by
  induction l generalizing i with
  | nil => cases h
  | cons b l ih =>
      cases i with
      | zero =>
          rw [List.set_cons_zero, List.getElem_cons_zero, filterMap_cons_toList, filterMap_cons_toList,
            ← Multiset.coe_add, ← Multiset.coe_add]
          simp only [id]
          abel
      | succ i =>
          have hi : i < l.length := Nat.lt_of_succ_lt_succ h
          rw [List.set_cons_succ, List.getElem_cons_succ, filterMap_cons_toList, filterMap_cons_toList,
            ← Multiset.coe_add, ← Multiset.coe_add, add_assoc, add_assoc, ih hi]

theorem filterMap_split {α β : Type} {l : List α} {f g h : α → Option β}
    (hsplit : ∀ a, f a = g a ∧ h a = none ∨ f a = h a ∧ g a = none) :
    (l.filterMap f : Multiset β) = l.filterMap g + l.filterMap h := by
  induction l with
  | nil => rfl
  | cons a l ih =>
      rw [filterMap_cons_toList f, filterMap_cons_toList g, filterMap_cons_toList h, ← Multiset.coe_add,
        ← Multiset.coe_add, ← Multiset.coe_add, ih]
      rcases hsplit a with ⟨hf, hnone⟩ | ⟨hf, hnone⟩
      all_goals
        rw [hf, hnone]
        simp only [Option.toList_none, Multiset.coe_nil]
        abel

theorem carried_cons (w : Work κ ρ N) (works : Multiset (Work κ ρ N)) :
    carried (w ::ₘ works) = w.carried?.toList + carried works := by
  rw [carried, carried]
  cases hw : w.carried? with
  | none => simp [Multiset.filterMap_cons_none _ _ hw]
  | some resource => simp [Multiset.filterMap_cons_some _ _ _ hw]

theorem uncounted_cons (w : Work κ ρ N) (works : Multiset (Work κ ρ N)) :
    uncounted (w ::ₘ works) = uncounted works + if w.isUncounted then 1 else 0 :=
  Multiset.countP_cons _ w works

namespace Table

theorem resources_set (t : Table κ ρ N) (s : Fin N) (resource : Option ρ) :
    ((t.contents.set s.val resource s.isLt).toList.filterMap id : Multiset ρ) + (t.contents.get s).toList =
      t.resources + resource.toList := by
  rw [Vector.toList_set]
  exact filterMap_id_set t.contents.toList (by simp) resource

theorem markResident_keeps (t : Table κ ρ N) (s : Fin N) :
    (t.markResident s).contents = t.contents ∧ (t.markResident s).loads = t.loads := by
  rw [markResident]
  split <;> exact ⟨rfl, rfl⟩

theorem resources_congr {t t' : Table κ ρ N} (h : t'.contents = t.contents) : t'.resources = t.resources := by
  rw [resources, h, resources]

end Table

section Ledger

variable [DecidableEq κ] {placeholder : κ} {x y : Moment κ ρ N} {effect : Effect ρ N}
  {trace : List (Effect ρ N)}

theorem Table.clear_keeps (t : Table κ ρ N) (s : Fin N) :
    (t.clear s).contents = t.contents ∧ (t.clear s).loads = t.loads := by
  rw [clear]
  split <;> exact ⟨rfl, rfl⟩

/-- What is returned in a step is carried from then on, and what is given back was in a slot. -/
theorem Step.conserves (h : Step placeholder x effect y) (hx : x.Sound placeholder) :
    carried y.works + y.table.resources + effect.released?.toList =
      carried x.works + x.table.resources + effect.returned?.toList := by
  obtain ⟨_, hp, hf⟩ := hx
  cases h with
  | rest => rfl
  | reserve =>
      simp only [carried_cons, Work.carried?, Option.toList_none, Multiset.coe_nil, zero_add]
      rfl
  | succeed table works slot key resource =>
      simp only [carried_cons, Work.carried?, Effect.released?, Effect.returned?, Option.toList_none,
        Multiset.coe_nil]
      abel
  | fail table works slot key =>
      simp only [carried_cons]
      rfl
  | store table works slot key resource =>
      -- nothing is overwritten: the slot is reserved for this load, which has stored nothing yet
      have hnone : table.contents.get slot = none :=
        hf.eq_none (by simp [hp.head rfl]) (by simpa using hp.not_marking_tail rfl)
      have hset := table.resources_set slot (some resource)
      rw [hnone, Option.toList_none, Multiset.coe_nil, add_zero] at hset
      simp only [carried_cons, Work.carried?, Effect.released?, Effect.returned?, Option.toList_none,
        Multiset.coe_nil]
      rw [Table.store, Table.resources, hset]
      abel
  | mark table works slot key =>
      simp only [carried_cons, Table.resources_congr (table.markResident_keeps slot).1]
      rfl
  | count table works =>
      simp only [carried_cons, Work.carried?, Option.toList_none, Multiset.coe_nil, zero_add]
      rfl
  | clear table works slot key =>
      simp only [carried_cons, Work.carried?, Option.toList_none, Multiset.coe_nil, zero_add,
        Table.resources_congr (table.clear_keeps slot).1]
      rfl
  | standIn table works key slot =>
      rw [Table.resources_congr (table.addAlias_keeps key slot placeholder).2.1]
      rfl
  | @unload table _ works n slot resource hunload =>
      obtain ⟨_, rfl, _, rfl⟩ := Table.unload_done hunload
      have hset := (table.clear slot).resources_set slot none
      rw [Table.resources_congr (table.clear_keeps slot).1, (table.clear_keeps slot).1] at hset
      simp only [Effect.released?, Effect.returned?]
      rw [add_assoc, add_assoc, Table.resources, (table.clear_keeps slot).1, hset]

/-- A load is counted once it has returned a resource, if not at once. -/
theorem Step.counts (h : Step placeholder x effect y) :
    y.table.loads + uncounted y.works =
      x.table.loads + uncounted x.works + effect.returned?.toList.length := by
  cases h with
  | rest => rfl
  | reserve | succeed | fail | store =>
      simp only [uncounted_cons]
      rfl
  | mark table works slot key =>
      simp only [uncounted_cons, (table.markResident_keeps slot).2]
      rfl
  | count table works =>
      simp only [uncounted_cons, Table.countLoad, Work.isUncounted, if_true, Effect.returned?,
        Option.toList_none, List.length_nil]
      omega
  | clear table works slot key =>
      simp only [uncounted_cons, (table.clear_keeps slot).2]
      rfl
  | standIn table works key slot =>
      rw [(table.addAlias_keeps key slot placeholder).2.2]
      rfl
  | @unload table _ works n slot resource hunload =>
      obtain ⟨_, _, _, rfl⟩ := Table.unload_done hunload
      rw [(table.clear_keeps slot).2]
      rfl

theorem ledger_of_run (h : Run placeholder x trace y) (hx : x.Sound placeholder) :
    carried y.works + y.table.resources + trace.filterMap Effect.released? =
        carried x.works + x.table.resources + trace.filterMap Effect.returned? ∧
      y.table.loads + uncounted y.works =
        x.table.loads + uncounted x.works + (trace.filterMap Effect.returned?).length := by
  induction h with
  | nil => exact ⟨rfl, rfl⟩
  | @cons x effect y trace z hstep _ ih =>
      obtain ⟨hplaces, hcount⟩ := ih (hx.step hstep)
      have hplaces' := hstep.conserves hx
      have hcount' := hstep.counts
      rw [filterMap_cons_toList, filterMap_cons_toList, ← Multiset.coe_add, ← Multiset.coe_add,
        List.length_append]
      refine ⟨?_, by omega⟩
      calc carried z.works + z.table.resources + (effect.released?.toList + trace.filterMap Effect.released?)
          = carried z.works + z.table.resources + trace.filterMap Effect.released? +
              effect.released?.toList := by abel
        _ = carried y.works + y.table.resources + effect.released?.toList +
              trace.filterMap Effect.returned? := by
          rw [hplaces]
          abel
        _ = carried x.works + x.table.resources +
              (effect.returned?.toList + trace.filterMap Effect.returned?) := by
          rw [hplaces']
          abel

end Ledger

/-- Every resource that was made is in one place, and once no load is in progress the loads that were
counted are those of the resident slots and of what was given back. -/
structure Moment.Balanced (x : Moment κ ρ N) (made given : Multiset ρ) : Prop where
  reserved : Placed x.table x.works
  places : made = carried x.works + x.table.resourcesIn SlotState.isLoading +
    x.table.resourcesIn SlotState.isResident + given
  counted : x.works = 0 → x.table.loads = x.table.residents + given.card

section Balanced

variable {t : Table κ ρ N} {works : Multiset (Work κ ρ N)} {s : Fin N}

theorem Filled.eq_none_of_empty (hf : Filled t works) (hp : Placed t works) (hs : t.states.get s = .empty) :
    t.contents.get s = none :=
  hf.eq_none (by simp [hs]) (hp.not_marking (by simp [hs]))

theorem Filled.resources_split (hf : Filled t works) (hp : Placed t works) :
    (t.resources : Multiset ρ) = t.resourcesIn SlotState.isLoading + t.resourcesIn SlotState.isResident := by
  rw [Table.resources_eq]
  refine filterMap_split fun s => ?_
  cases hs : t.states.get s with
  | empty =>
      refine Or.inl ⟨?_, rfl⟩
      rw [hf.eq_none_of_empty hp hs]
      rfl
  | loading key => exact Or.inl ⟨rfl, rfl⟩
  | resident key => exact Or.inr ⟨rfl, rfl⟩

theorem Filled.resourcesIn_loading (hf : Filled t 0) : t.resourcesIn SlotState.isLoading = 0 := by
  rw [Table.resourcesIn, List.filterMap_eq_nil_iff.mpr]
  · rfl
  intro s _
  cases hs : t.states.get s with
  | empty => rfl
  | resident key => rfl
  | loading key =>
      have hnone : t.contents.get s = none := hf.eq_none (by simp [hs]) (by simp)
      exact hnone

theorem Filled.card_residents (hf : Filled t works) :
    (t.resourcesIn SlotState.isResident).card = t.residents := by
  rw [Table.resourcesIn, Table.residents, Multiset.coe_card, List.length_filterMap_eq_countP]
  refine List.countP_congr fun s _ => ?_
  cases hs : t.states.get s with
  | empty => simp [SlotState.isResident]
  | loading key => simp [SlotState.isResident]
  | resident key => simp [SlotState.isResident, hf s, hs]

variable [DecidableEq κ] {placeholder : κ} {x : Moment κ ρ N} {trace : List (Effect ρ N)}

theorem balanced_of_run (h : Run placeholder .start trace x) :
    x.Balanced (trace.filterMap Effect.returned?) (trace.filterMap Effect.released?) := by
  obtain ⟨_, hp, hf⟩ := (sound_start placeholder).run h
  obtain ⟨hplaces, hcount⟩ := ledger_of_run h (sound_start placeholder)
  have hstart : (Moment.start : Moment κ ρ N).table.resources = [] := by
    simp [Moment.start, Table.empty, Table.resources]
  have hmade : (trace.filterMap Effect.returned? : Multiset ρ) =
      carried x.works + x.table.resourcesIn SlotState.isLoading + x.table.resourcesIn SlotState.isResident +
        trace.filterMap Effect.released? := by
    rw [add_assoc (carried x.works), ← hf.resources_split hp, hplaces, hstart]
    exact (zero_add _).symm
  refine ⟨hp, hmade, fun hworks => ?_⟩
  obtain ⟨table, works⟩ := x
  obtain rfl := hworks
  have hcard := congrArg Multiset.card hmade
  simp only [Multiset.card_add, Multiset.coe_card, hf.resourcesIn_loading, hf.card_residents,
    Multiset.card_zero, carried, Multiset.filterMap_zero] at hcard
  simp only [Moment.start, Table.empty, uncounted, Multiset.countP_zero] at hcount
  rw [Multiset.coe_card]
  change table.loads = table.residents + _
  omega

end Balanced

section Logs

def Entry.made? : Entry ρ → Option ρ
  | .made resource => some resource
  | _ => none

def Entry.given? : Entry ρ → Option ρ
  | .given resource => some resource
  | _ => none

theorem filterMap_entries {f : Entry ρ → Option ρ} {g : Effect ρ N → Option ρ}
    (h : ∀ effect : Effect ρ N, effect.entries.filterMap f = (g effect).toList) (trace : List (Effect ρ N)) :
    (trace.flatMap Effect.entries).filterMap f = trace.filterMap g := by
  induction trace with
  | nil => rfl
  | cons effect trace ih => rw [List.flatMap_cons, List.filterMap_append, ih, filterMap_cons_toList, h]

theorem made_entries (trace : List (Effect ρ N)) :
    (trace.flatMap Effect.entries).filterMap Entry.made? = trace.filterMap Effect.returned? := by
  refine filterMap_entries (fun effect => ?_) trace
  rcases effect with _ | resource | ⟨slot, _ | resource⟩ <;> rfl

theorem given_entries (trace : List (Effect ρ N)) :
    (trace.flatMap Effect.entries).filterMap Entry.given? = trace.filterMap Effect.released? := by
  refine filterMap_entries (fun effect => ?_) trace
  rcases effect with _ | resource | ⟨slot, _ | resource⟩ <;> rfl

theorem given_append (entries : List (Entry ρ)) (resource : ρ) :
    ((entries ++ [Entry.given resource]).filterMap Entry.given? : Multiset ρ) =
      resource ::ₘ entries.filterMap Entry.given? := by
  rw [List.filterMap_append]
  exact (Multiset.coe_add _ _).symm.trans (add_comm _ _)

theorem given_drop (L : Loader σ κ ρ N) (given : σ → Multiset ρ)
    (hrelease : ∀ resource e, given (L.release resource e) = resource ::ₘ given e) (t : Table κ ρ N) (e : σ) :
    given (L.drop (t, e)) = t.resources + given e := by
  rw [Loader.drop]
  generalize t.resources = resources
  induction resources generalizing e with
  | nil => exact (zero_add _).symm
  | cons resource resources ih =>
      rw [List.foldl_cons, ih, hrelease, ← Multiset.cons_coe, Multiset.cons_add, Multiset.add_cons]

/-- With no load in progress, dropping the table leaves nothing that was made and not given back. -/
theorem Moment.Balanced.drop {x : Moment κ ρ N} {made back : Multiset ρ} (hx : x.Balanced made back)
    (hf : Filled x.table x.works) (hworks : x.works = 0) (L : Loader σ κ ρ N) (given : σ → Multiset ρ)
    (hrelease : ∀ resource e, given (L.release resource e) = resource ::ₘ given e) {e : σ}
    (he : given e = back) : given (L.drop (x.table, e)) = made := by
  rw [given_drop L given hrelease, he, hx.places, hf.resources_split hx.reserved, hworks, carried,
    Multiset.filterMap_zero, zero_add]

variable [DecidableEq κ]

/-- After any moves of threads, and after any session of calls, also of one inside loads, each resource
that a load has returned is in one place. With no load in progress, dropping the table leaves all of them
given back. -/
theorem resources_conserved :
    (∀ (setting : Setting κ) (threads : Nat) (moves : List (Nat × Move κ ρ)) (m : Machine κ ρ N),
      (Machine.idle threads).run? setting moves = some m →
        m.moment.Balanced (moves.filterMap (·.2.returned?)) m.released ∧
        (m.moment.works = 0 → ∀ (L : Loader σ κ ρ N) (given : σ → Multiset ρ),
          (∀ resource e, given (L.release resource e) = resource ::ₘ given e) → ∀ e, given e = m.released →
            given (L.drop (m.table, e)) = moves.filterMap (·.2.returned?))) ∧
    ∀ (L : Loader σ κ ρ N) (log : σ → List (Entry ρ)) (depth : Nat) (trace : List (Effect ρ N))
      (t t' : Table κ ρ N) (works : Multiset (Work κ ρ N)) (e e' : σ),
      Run L.placeholder .start trace ⟨t, works⟩ → log e = trace.flatMap Effect.entries →
      L.Nests [log] depth → L.Session [log] (t, e) (t', e') →
        (Moment.mk t' works).Balanced ((log e').filterMap Entry.made?) ((log e').filterMap Entry.given?) ∧
        (works = 0 → ((log (L.drop (t', e'))).filterMap Entry.given? : Multiset ρ) =
          (log e').filterMap Entry.made?) := by
  refine ⟨fun setting threads moves m h => ?_, fun L log depth trace t t' works e e' hstart hlog hL h => ?_⟩
  · obtain ⟨trace, hrun, hreturned, hreleased, _⟩ := run_moment h
    rw [moment_idle] at hrun
    have hx := balanced_of_run hrun
    have hback : (m.released : Multiset ρ) = trace.filterMap Effect.released? := by
      rw [hreleased]
      simp [Machine.idle]
    rw [hreturned, ← hback] at hx
    refine ⟨hx, fun hworks L given hrelease e he => ?_⟩
    exact hx.drop ((sound_start _).run hrun).filled hworks L given hrelease he
  · obtain ⟨more, hmore, hgrows⟩ := hL.orderly.session h works
    have hrun := hstart.append hmore
    have hlog' : log e' = (trace ++ more).flatMap Effect.entries := by
      rw [hgrows log (List.mem_singleton_self log), hlog, List.flatMap_append]
    have hx := balanced_of_run hrun
    rw [← made_entries, ← given_entries, ← hlog'] at hx
    refine ⟨hx, fun hworks => ?_⟩
    refine hx.drop ((sound_start _).run hrun).filled hworks L (fun e => (log e).filterMap Entry.given?)
      (fun resource e => ?_) rfl
    rw [hL.orderly.records.release resource e log (List.mem_singleton_self log)]
    exact given_append (log e) resource

def nestedRecorder : Loader (List (Entry Nat)) Nat Nat 2 :=
  Loader.recorder 9 (fun key => if key = 2 then .error (.unavailable "none") else .ok (10 * key))
    (fun key => if key = 1 then [.load 2] else []) 1

/-- Moves of a thread with a drop at their end, and the load above with every slot unloaded after it. -/
theorem resources_conserved_nested :
    unloadedMachine.moment.Balanced ↑[90, 10] ↑[90] ∧
    ((nestedRecorder.drop (unloadedMachine.table, [.given 90])).filterMap Entry.given? : Multiset Nat) =
      ↑[90, 10] ∧
    (Moment.mk (nestedRecorder.unloadAll (nestedRecorder.perform (.load 1) (.empty, []))).1 0).Balanced
      ↑[90, 10] ↑[10, 90] := by
  obtain ⟨hmoves, hdrop⟩ := resources_conserved.1 nestedSetting 1 unloadedMoves _ run_unloadedMoves
  refine ⟨hmoves, ?_, ?_⟩
  · exact hdrop rfl nestedRecorder (fun log => log.filterMap Entry.given?)
      (fun resource log => given_append log resource) [.given 90] rfl
  · have hsession : nestedRecorder.Session [id] (.empty, [])
        (nestedRecorder.unloadAll (nestedRecorder.perform (.load 1) (.empty, []))) :=
      (Loader.session_perform (.load 1) _).trans (Loader.session_perform .unloadAll _)
    exact (resources_conserved.2 nestedRecorder id 1 [] .empty _ 0 [] _ (.nil _) rfl
      (Loader.recorder_nests _ _ _ 1) hsession).1

end Logs

end FrameEngine.Slots
