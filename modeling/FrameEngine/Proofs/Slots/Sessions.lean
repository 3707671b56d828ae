import FrameEngine.Proofs.Slots.Protocol
import FrameEngine.Slots.Scripted

namespace FrameEngine.Slots

variable {σ κ ρ : Type} {N : Nat}

inductive Op (κ : Type)
  | load (key : κ)
  | unload (slot : Nat)
  | unloadAll

inductive Entry (ρ : Type)
  | made (resource : ρ)
  | given (resource : ρ)
  | unloaded (slot : Nat)
  deriving DecidableEq

def Effect.entries : Effect ρ N → List (Entry ρ)
  | .quiet => []
  | .returned resource => [.made resource]
  | .evicted slot resource => resource.toList.map .given ++ [.unloaded slot]

def entriesOfLoad : Except LoadError ρ → List (Entry ρ)
  | .ok resource => [.made resource]
  | .error _ => []

def entriesOfNote : FrameEngine.Event → List (Entry ρ)
  | .unloaded _ slot => [.unloaded slot]
  | _ => []

def Grows (logs : List (σ → List (Entry ρ))) (e : σ) (entries : List (Entry ρ)) (e' : σ) : Prop :=
  ∀ log ∈ logs, log e' = log e ++ entries

structure Ledger (R : σ → List (Entry ρ) → σ → Prop) : Prop where
  refl (e : σ) : R e [] e
  trans {e e' e'' : σ} {entries more : List (Entry ρ)} :
    R e entries e' → R e' more e'' → R e (entries ++ more) e''

section Grows

variable {logs : List (σ → List (Entry ρ))} {e e' e'' : σ} {entries more : List (Entry ρ)}

theorem Grows.refl (logs : List (σ → List (Entry ρ))) (e : σ) : Grows logs e [] e :=
  fun _ _ => (List.append_nil _).symm

theorem Grows.trans (h : Grows logs e entries e') (h' : Grows logs e' more e'') :
    Grows logs e (entries ++ more) e'' := by
  intro log hlog
  rw [h' log hlog, h log hlog, List.append_assoc]

theorem ledger_grows (logs : List (σ → List (Entry ρ))) : Ledger (Grows logs) :=
  ⟨Grows.refl logs, Grows.trans⟩

end Grows

variable [DecidableEq κ]

namespace Loader

def perform (L : Loader σ κ ρ N) (op : Op κ) (w : Table κ ρ N × σ) : Table κ ρ N × σ :=
  match op with
  | .load key => (L.loadOrGet key w).2
  | .unload slot => (L.unload slot w).2
  | .unloadAll => L.unloadAll w

structure Records (L : Loader σ κ ρ N) (logs : List (σ → List (Entry ρ))) : Prop where
  release : ∀ resource e, Grows logs e [.given resource] (L.release resource e)
  note : ∀ event e, Grows logs e (entriesOfNote event) (L.note event e)

/-- Operations one after another. In between, what else the loader works on may change, the logs
excepted. -/
inductive Session (L : Loader σ κ ρ N) (logs : List (σ → List (Entry ρ))) :
    Table κ ρ N × σ → Table κ ρ N × σ → Prop
  | done {t e e'} (hlogs : Grows logs e [] e') : Session L logs (t, e) (t, e')
  | next {t e e' w} (op) (hlogs : Grows logs e [] e') (rest : Session L logs (L.perform op (t, e')) w) :
      Session L logs (t, e) w

/-- While it loads, `L` may use its table, and loads may be nested in its loads down to a depth. -/
def Nests (logs : List (σ → List (Entry ρ))) : Nat → Loader σ κ ρ N → Prop
  | 0, L => L.Records logs ∧ ∀ key t e, ∃ outcome e',
      L.load key (t, e) = (outcome, t, e') ∧ Grows logs e (entriesOfLoad outcome) e'
  | depth + 1, L => L.Records logs ∧ ∃ inner : Loader σ κ ρ N,
      inner.placeholder = L.placeholder ∧ Nests logs depth inner ∧
        ∀ key w, ∃ outcome t e e', L.load key w = (outcome, t, e') ∧ inner.Session logs w (t, e) ∧
          Grows logs e (entriesOfLoad outcome) e'

end Loader

/-- A table gets from one state to another by steps, whatever other loads are in progress. What they do with
resources is noted in `R`. -/
def Leads (placeholder : κ) (R : σ → List (Entry ρ) → σ → Prop) (w w' : Table κ ρ N × σ) : Prop :=
  ∀ works, ∃ trace, Run placeholder ⟨w.1, works⟩ trace ⟨w'.1, works⟩ ∧
    R w.2 (trace.flatMap Effect.entries) w'.2

section Leads

variable {placeholder : κ} {R : σ → List (Entry ρ) → σ → Prop} {w w' w'' : Table κ ρ N × σ}
  {t t' : Table κ ρ N} {e e' : σ}

theorem leads_of_rest (h : R e [] e') : Leads placeholder R (t, e) (t, e') :=
  fun _ => ⟨[], .nil _, h⟩

theorem leads_of_step {effect : Effect ρ N} (h : ∀ works, Step placeholder ⟨t, works⟩ effect ⟨t', works⟩)
    (hlogs : R e effect.entries e') : Leads placeholder R (t, e) (t', e') := by
  intro works
  refine ⟨[effect], .single (h works), ?_⟩
  rwa [List.flatMap_singleton]

variable (hR : Ledger R)
include hR

theorem Leads.refl (w : Table κ ρ N × σ) : Leads placeholder R w w :=
  leads_of_rest (hR.refl w.2)

theorem Leads.trans (h : Leads placeholder R w w') (h' : Leads placeholder R w' w'') :
    Leads placeholder R w w'' := by
  intro works
  obtain ⟨trace, hrun, hlogs⟩ := h works
  obtain ⟨trace', hrun', hlogs'⟩ := h' works
  refine ⟨trace ++ trace', hrun.append hrun', ?_⟩
  rw [List.flatMap_append]
  exact hR.trans hlogs hlogs'

end Leads

namespace Loader

variable {L : Loader σ κ ρ N} {R : σ → List (Entry ρ) → σ → Prop} {logs : List (σ → List (Entry ρ))}

/-- Loads of `L` take their table through steps only, before they end, and `R` notes what is returned, given
back and unloaded. -/
structure Orderly (L : Loader σ κ ρ N) (R : σ → List (Entry ρ) → σ → Prop) : Prop where
  ledger : Ledger R
  release : ∀ resource e, R e [.given resource] (L.release resource e)
  note : ∀ event e, R e (entriesOfNote event) (L.note event e)
  load : ∀ key w, ∃ outcome t e e', L.load key w = (outcome, t, e') ∧ Leads L.placeholder R w (t, e) ∧
    R e (entriesOfLoad outcome) e'

theorem Orderly.records (hL : L.Orderly (Grows logs)) : L.Records logs := ⟨hL.release, hL.note⟩

section Ledger

variable (hR : Ledger R)
include hR

/-- A load that gives a resource: it is stored, marked and counted. -/
theorem leads_install {t t' : Table κ ρ N} {e e₁ e₂ e₃ : σ} {s : Fin N} {key placeholder : κ} {resource : ρ}
    (hprobe : t.probe key = .vacant s) (hload : Leads placeholder R (t.reserve s key, e) (t', e₁))
    (hlogs : R e₁ [.made resource] e₂) (hnote : R e₂ [] e₃) :
    Leads placeholder R (t, e) (t'.install s resource, e₃) := by
  intro works
  -- what happens inside the load happens with the load in progress
  obtain ⟨trace, hrun, hgrows⟩ := hload (.loading s key ::ₘ works)
  have hend : Run placeholder ⟨t', .loading s key ::ₘ works⟩ [.returned resource, .quiet, .quiet, .quiet]
      ⟨t'.install s resource, works⟩ :=
    .cons (.succeed _ _ _ _ _) (.cons (.store _ _ _ _ _) (.cons (.mark _ _ _ _) (.single (.count _ _))))
  refine ⟨.quiet :: (trace ++ [.returned resource, .quiet, .quiet, .quiet]),
    .cons (.reserve hprobe) (hrun.append hend), ?_⟩
  rw [List.flatMap_cons, List.flatMap_append]
  change R e (trace.flatMap Effect.entries ++ ([.made resource] ++ [])) e₃
  exact hR.trans hgrows (hR.trans hlogs hnote)

/-- A load that fails gives its slot back. -/
theorem leads_clear {t t' : Table κ ρ N} {e e₁ e₂ : σ} {s : Fin N} {key placeholder : κ}
    (hprobe : t.probe key = .vacant s) (hload : Leads placeholder R (t.reserve s key, e) (t', e₁))
    (hlogs : R e₁ [] e₂) : Leads placeholder R (t, e) (t'.clear s, e₂) := by
  intro works
  obtain ⟨trace, hrun, hgrows⟩ := hload (.loading s key ::ₘ works)
  have hend : Run placeholder ⟨t', .loading s key ::ₘ works⟩ [.quiet, .quiet] ⟨t'.clear s, works⟩ :=
    .cons (.fail _ _ _ _) (.single (.clear _ _ _ _))
  refine ⟨.quiet :: (trace ++ [.quiet, .quiet]), .cons (.reserve hprobe) (hrun.append hend), ?_⟩
  rw [List.flatMap_cons, List.flatMap_append]
  change R e (trace.flatMap Effect.entries ++ []) e₂
  exact hR.trans hgrows hlogs

end Ledger

namespace Orderly

theorem loadKey (hL : L.Orderly R) (key : κ) (w : Table κ ρ N × σ) :
    Leads L.placeholder R w (L.loadKey key w).2 := by
  obtain ⟨t, e⟩ := w
  rw [Loader.loadKey]
  split
  · exact .refl hL.ledger _
  · exact .refl hL.ledger _
  · exact .refl hL.ledger _
  next s hprobe =>
    obtain ⟨outcome, t', e₁, e₂, hload, hleads, hlogs⟩ := hL.load key (t.reserve s key, e)
    rw [hload]
    match outcome with
    | .ok resource =>
        have hnote := hL.note (.slotSet L.kind s (L.describe e₂ key)) e₂
        exact leads_install hL.ledger hprobe hleads hlogs hnote
    | .error (.unavailable reason) => exact leads_clear hL.ledger hprobe hleads hlogs
    | .error (.fatal cause) => exact leads_clear hL.ledger hprobe hleads hlogs

theorem loadOrGet (hL : L.Orderly R) (key : κ) (w : Table κ ρ N × σ) :
    Leads L.placeholder R w (L.loadOrGet key w).2 := by
  have hown := hL.loadKey key w
  rw [Loader.loadOrGet]
  split
  next hfirst => rwa [hfirst] at hown
  next hfirst => rwa [hfirst] at hown
  next reason t e hfirst =>
    rw [hfirst] at hown
    split
    · exact hown
    · have hnote := hL.note (.unavailable L.kind (L.describe e key) reason) e
      have hfallback := hL.loadKey L.placeholder
        (t, L.note (.unavailable L.kind (L.describe e key) reason) e)
      refine hown.trans hL.ledger ((leads_of_rest hnote).trans hL.ledger ?_)
      dsimp only
      split
      next hsecond => rwa [hsecond] at hfallback
      next hsecond =>
        rw [hsecond] at hfallback
        exact hfallback.trans hL.ledger
          (leads_of_step (fun works => .standIn _ works _ _) (hL.ledger.refl _))
      next hsecond => rwa [hsecond] at hfallback

theorem unload (hL : L.Orderly R) (n : Nat) (w : Table κ ρ N × σ) :
    Leads L.placeholder R w (L.unload n w).2 := by
  obtain ⟨t, e⟩ := w
  rw [Loader.unload]
  split
  · exact .refl hL.ledger _
  · exact leads_of_rest (hL.note (.stillLoading L.kind n) e)
  next s resource t' hunload =>
    obtain ⟨rfl, _⟩ := Table.unload_done hunload
    refine leads_of_step (fun works => .unload hunload) ?_
    cases resource with
    | none => exact hL.note (.unloaded L.kind s) e
    | some resource =>
        exact hL.ledger.trans (hL.release resource e) (hL.note (.unloaded L.kind s) (L.release resource e))

theorem unloadAll (hL : L.Orderly R) (w : Table κ ρ N × σ) :
    Leads L.placeholder R w (L.unloadAll w) := by
  rw [Loader.unloadAll]
  generalize List.range N = slots
  induction slots generalizing w with
  | nil => exact .refl hL.ledger w
  | cons n slots ih => exact (hL.unload n w).trans hL.ledger (ih _)

theorem perform (hL : L.Orderly R) (op : Op κ) (w : Table κ ρ N × σ) :
    Leads L.placeholder R w (L.perform op w) := by
  cases op with
  | load key => exact hL.loadOrGet key w
  | unload slot => exact hL.unload slot w
  | unloadAll => exact hL.unloadAll w

theorem session (hL : L.Orderly (Grows logs)) {w w' : Table κ ρ N × σ} (h : L.Session logs w w') :
    Leads L.placeholder (Grows logs) w w' := by
  induction h with
  | done hlogs => exact leads_of_rest hlogs
  | next op hlogs _ ih =>
      exact (leads_of_rest hlogs).trans hL.ledger ((hL.perform op _).trans hL.ledger ih)

end Orderly

/-- Loads are orderly at any depth, since the operations in them are those of an orderly loader. -/
theorem Nests.orderly {depth : Nat} (hL : L.Nests logs depth) : L.Orderly (Grows logs) := by
  induction depth generalizing L with
  | zero =>
      obtain ⟨hrecords, hload⟩ := hL
      refine ⟨ledger_grows logs, hrecords.release, hrecords.note, fun key w => ?_⟩
      obtain ⟨outcome, e', hresult, hlogs⟩ := hload key w.1 w.2
      exact ⟨outcome, w.1, w.2, e', hresult, .refl (ledger_grows logs) w, hlogs⟩
  | succ depth ih =>
      obtain ⟨hrecords, inner, hplaceholder, hinner, hload⟩ := hL
      refine ⟨ledger_grows logs, hrecords.release, hrecords.note, fun key w => ?_⟩
      obtain ⟨outcome, t, e, e', hresult, hsession, hlogs⟩ := hload key w
      exact ⟨outcome, t, e, e', hresult, hplaceholder ▸ (ih hinner).session hsession, hlogs⟩

theorem session_perform (op : Op κ) (w : Table κ ρ N × σ) : L.Session logs w (L.perform op w) :=
  .next op (.refl logs w.2) (.done (.refl logs _))

theorem Session.trans {w w' w'' : Table κ ρ N × σ} (h : L.Session logs w w') (h' : L.Session logs w' w'') :
    L.Session logs w w'' := by
  induction h with
  | done hlogs =>
      cases h' with
      | done hlogs' => exact .done (hlogs.trans hlogs')
      | next op hlogs' rest => exact .next op (hlogs.trans hlogs') rest
  | next op hlogs _ ih => exact .next op hlogs (ih h')

theorem session_foldl (ops : List (Op κ)) (w : Table κ ρ N × σ) :
    L.Session logs w (ops.foldl (fun w op => L.perform op w) w) := by
  induction ops generalizing w with
  | nil => exact .done (.refl logs w.2)
  | cons op ops ih => exact (session_perform op w).trans (ih _)

def recording (placeholder : κ) (outcome : κ → Except LoadError ρ)
    (during : κ → Table κ ρ N × List (Entry ρ) → Table κ ρ N × List (Entry ρ)) :
    Loader (List (Entry ρ)) κ ρ N where
  kind := "recorded"
  placeholder := placeholder
  describe := fun _ _ => ""
  load := fun key w =>
    let (t, log) := during key w
    (outcome key, t, log ++ entriesOfLoad (outcome key))
  release := fun resource log => log ++ [.given resource]
  note := fun event log => log ++ entriesOfNote event

def recorder (placeholder : κ) (outcome : κ → Except LoadError ρ) (ops : κ → List (Op κ)) :
    Nat → Loader (List (Entry ρ)) κ ρ N
  | 0 => recording placeholder outcome fun _ w => w
  | depth + 1 => recording placeholder outcome fun key w =>
      (ops key).foldl (fun w op => (recorder placeholder outcome ops depth).perform op w) w

theorem recorder_nests (placeholder : κ) (outcome : κ → Except LoadError ρ) (ops : κ → List (Op κ))
    (depth : Nat) : (recorder placeholder outcome ops depth : Loader _ κ ρ N).Nests [id] depth := by
  have hrecords (during) : (recording placeholder outcome during : Loader _ κ ρ N).Records [id] :=
    ⟨by simp [Grows, recording], by simp [Grows, recording]⟩
  induction depth with
  | zero => exact ⟨hrecords _, fun key t e => ⟨outcome key, _, rfl, by simp [Grows]⟩⟩
  | succ depth ih =>
      refine ⟨hrecords _, recorder placeholder outcome ops depth, ?_, ih, fun key w => ?_⟩
      · cases depth <;> rfl
      · exact ⟨outcome key, _, _, _, rfl, session_foldl (ops key) w, by simp [Grows]⟩

end Loader

namespace Scripted

variable {L : Loader Script Nat String N}

theorem session_perform (step : Scripted.Step) (w : Table Nat String N × Script) :
    L.Session [] w (perform L step w).2 := by
  have hsame (script : Script) : L.Session [] w (w.1, script) := .done (by simp [Grows])
  cases step with
  | load key =>
      have hload : L.Session [] w (L.perform (.load key) w) := Loader.session_perform (.load key) w
      rw [perform]
      split
      next heq => rwa [Loader.perform, heq] at hload
      next heq => rwa [Loader.perform, heq] at hload
  | unload slot => exact Loader.session_perform (.unload slot) w
  | unloadAll => exact Loader.session_perform .unloadAll w
  | set key outcome => exact hsame _
  | during key steps => exact hsame _
  | get key | slot slot | table | debug => exact hsame w.2

theorem session_performDuring (key : Nat) (steps : List Scripted.Step) (w : Table Nat String N × Script) :
    L.Session [] w (performDuring L key steps w) := by
  induction steps generalizing w with
  | nil => exact .done (.refl [] _)
  | cons step steps ih =>
      have htrace : L.Session [] (perform L step w).2
          ((perform L step w).2.1, (perform L step w).2.2.record (.during key (perform L step w).1)) :=
        .done (by simp [Grows])
      exact ((session_perform step w).trans htrace).trans (ih _)

theorem loaderOfDepth_placeholder (placeholder depth : Nat) :
    (loaderOfDepth placeholder depth : Loader Script Nat String N).placeholder = placeholder := by
  cases depth <;> simp only [loaderOfDepth]

theorem loaderOfDepth_load (placeholder depth key : Nat) (w : Table Nat String N × Script) :
    (loaderOfDepth placeholder (depth + 1)).load key w =
      let (steps, script) := (w.2.record (.load key)).takeWaiting key
      let w := performDuring (loaderOfDepth placeholder depth) key steps (w.1, script)
      (w.2.outcome key, w) := by
  simp only [loaderOfDepth]

theorem loaderOfDepth_nests (placeholder depth : Nat) :
    (loaderOfDepth placeholder depth : Loader Script Nat String N).Nests [] depth := by
  have hrecords (depth : Nat) : (loaderOfDepth placeholder depth : Loader Script Nat String N).Records [] :=
    ⟨by simp [Grows], by simp [Grows]⟩
  induction depth with
  | zero =>
      exact ⟨hrecords 0, fun key t e => ⟨e.outcome key, e, by simp only [loaderOfDepth], by simp [Grows]⟩⟩
  | succ depth ih =>
      refine ⟨hrecords _, loaderOfDepth placeholder depth, ?_, ih, fun key w => ?_⟩
      · rw [loaderOfDepth_placeholder, loaderOfDepth_placeholder]
      · rw [loaderOfDepth_load]
        have hstart : (loaderOfDepth placeholder depth).Session [] w
            (w.1, ((w.2.record (.load key)).takeWaiting key).2) := .done (by simp [Grows])
        exact ⟨_, _, _, _, rfl, hstart.trans (session_performDuring key _ _), by simp [Grows]⟩

end Scripted

end FrameEngine.Slots
