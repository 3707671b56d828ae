import FrameEngine.Proofs.Engine.Calls

namespace FrameEngine

namespace Slots

variable {σ κ ρ : Type} {N : Nat}

def Backed (entries : List (Entry ρ)) : Prop :=
  (entries.filterMap Entry.given? : Multiset ρ) ≤ entries.filterMap Entry.made?

theorem prefix_append {α : Type} {early l m : List α} (h : early <+: l ++ m) :
    early <+: l ∨ ∃ more, early = l ++ more ∧ more <+: m := by
  rcases List.prefix_or_prefix_of_prefix h (List.prefix_append l m) with hl | ⟨more, rfl⟩
  · exact .inl hl
  · exact .inr ⟨more, rfl, (List.prefix_append_right_inj l).mp h⟩

theorem filterMap_append_coe {α β : Type} (f : α → Option β) (l m : List α) :
    ((l ++ m).filterMap f : Multiset β) = l.filterMap f + m.filterMap f := by
  rw [List.filterMap_append, Multiset.coe_add]

theorem Effect.given_entries (effect : Effect ρ N) :
    effect.entries.filterMap Entry.given? = effect.released?.toList := by
  rcases effect with _ | resource | ⟨slot, _ | resource⟩ <;> rfl

theorem Effect.made_entries (effect : Effect ρ N) :
    effect.entries.filterMap Entry.made? = effect.returned?.toList := by
  rcases effect with _ | resource | ⟨slot, _ | resource⟩ <;> rfl

variable [DecidableEq κ] {placeholder : κ} {x y : Moment κ ρ N} {effect : Effect ρ N}
  {trace : List (Effect ρ N)}

/-- A step gives back what was held before it, since it does not return anything at the same time. -/
theorem Step.released_le (h : Step placeholder x effect y) (hx : x.Sound placeholder) :
    (effect.released?.toList : Multiset ρ) ≤ carried x.works + x.table.resources := by
  have hconserves := h.conserves hx
  cases effect with
  | quiet | returned => exact Multiset.zero_le _
  | evicted slot resource =>
      change _ = carried x.works + x.table.resources + 0 at hconserves
      rw [add_zero] at hconserves
      rw [← hconserves]
      exact Multiset.le_add_left _ _

/-- What has been given back at any point was there at the start, or was made before. -/
theorem Run.given_le (h : Run placeholder x trace y) (hx : x.Sound placeholder) {early : List (Entry ρ)}
    (he : early <+: trace.flatMap Effect.entries) :
    (early.filterMap Entry.given? : Multiset ρ) ≤
      carried x.works + x.table.resources + early.filterMap Entry.made? := by
  induction h generalizing early with
  | nil =>
      obtain rfl := List.prefix_nil.mp he
      exact Multiset.zero_le _
  | @cons x effect y trace z hstep _ ih =>
      rw [List.flatMap_cons] at he
      rcases prefix_append he with hfirst | ⟨more, rfl, hmore⟩
      · have hpart : (early.filterMap Entry.given? : Multiset ρ) ≤ effect.released?.toList := by
          rw [← effect.given_entries]
          exact (hfirst.sublist.filterMap Entry.given?).subperm
        calc (early.filterMap Entry.given? : Multiset ρ)
            ≤ effect.released?.toList := hpart
          _ ≤ carried x.works + x.table.resources := hstep.released_le hx
          _ ≤ _ := Multiset.le_add_right _ _
      · rw [filterMap_append_coe, filterMap_append_coe, effect.given_entries, effect.made_entries]
        calc (effect.released?.toList : Multiset ρ) + more.filterMap Entry.given?
            ≤ effect.released?.toList +
                (carried y.works + y.table.resources + more.filterMap Entry.made?) :=
              Multiset.add_le_add_left (ih (hx.step hstep) hmore)
          _ = carried y.works + y.table.resources + effect.released?.toList + more.filterMap Entry.made? := by
              abel
          _ = carried x.works + x.table.resources + (effect.returned?.toList + more.filterMap Entry.made?) := by
              rw [hstep.conserves hx, add_assoc]

theorem Run.backed (h : Run placeholder .start trace y) {early : List (Entry ρ)}
    (he : early <+: trace.flatMap Effect.entries) : Backed early := by
  have hle := h.given_le (sound_start placeholder) he
  have hnone : carried (Moment.start : Moment κ ρ N).works + (Moment.start : Moment κ ρ N).table.resources = 0 := by
    simp [Moment.start, Table.empty, Table.resources, carried]
  rwa [hnone, zero_add] at hle

/-- With no load in progress, what was made is in resident slots or was given back. -/
theorem Run.made_eq {t : Table κ ρ N} (h : Run placeholder .start trace ⟨t, 0⟩) :
    ((trace.flatMap Effect.entries).filterMap Entry.made? : Multiset ρ) =
      t.resources + (trace.flatMap Effect.entries).filterMap Entry.given? := by
  have hf := ((sound_start placeholder).run h).filled
  have hp := ((sound_start placeholder).run h).placed
  have hplaces := (balanced_of_run h).places
  rw [carried, Multiset.filterMap_zero, zero_add, ← hf.resources_split hp] at hplaces
  rwa [made_entries, given_entries]

theorem Run.card_resources {t : Table κ ρ N} (h : Run placeholder .start trace ⟨t, 0⟩) :
    t.resources.length = t.residents := by
  have hf := ((sound_start placeholder).run h).filled
  have hp := ((sound_start placeholder).run h).placed
  rw [← hf.card_residents, ← Multiset.coe_card, hf.resources_split hp, hf.resourcesIn_loading, zero_add]

namespace Loader

/-- Dropping a table gives back what its slots hold. -/
theorem Orderly.drop {L : Loader σ κ ρ N} {R : σ → List (Entry ρ) → σ → Prop} (hL : L.Orderly R)
    (t : Table κ ρ N) (e : σ) : R e (t.resources.map .given) (L.drop (t, e)) := by
  rw [Loader.drop]
  generalize t.resources = resources
  induction resources generalizing e with
  | nil => exact hL.ledger.refl e
  | cons resource resources ih => exact hL.ledger.trans (hL.release resource e) (ih _)

end Loader

end Slots

open FrameEngine.Asset FrameEngine.Slots FrameEngine.Texture

namespace Engine

variable {e : Engine} {log : List (Entry GpuTexture ⊕ Entry GpuTexture)}

theorem materialLoader_drop (t : MaterialTable) (w : TextureTable × Services) :
    materialLoader.drop (t, w) = w := by
  rw [Loader.drop]
  generalize t.resources = resources
  induction resources with
  | nil => rfl
  | cons resource resources ih => exact ih

def rest (e : Engine) : List (Entry GpuTexture) :=
  e.cubemaps.resources.map .given ++ e.textures.resources.map .given

theorem callsOfDrop_eq (e : Engine) : e.callsOfDrop = e.rest := by
  have hcubemaps := cubemapLoader_tallies.recorded.orderly.drop e.cubemaps (e.services, [])
  have htextures := textureLoader_tallies.recorded.orderly.drop e.textures
    (cubemapLoader.recorded.drop (e.cubemaps, e.services, []))
  rw [callsOfDrop, materialLoader_drop]
  exact htextures.2.trans (congrArg (· ++ _) hcubemaps.2)

theorem drop_calls (e : Engine) : Uploader.Calls e.services.uploader e.rest e.drop.uploader := by
  have hcubemaps := cubemapLoader_orderly.drop e.cubemaps e.services
  have htextures := textureLoader_orderly.drop e.textures (cubemapLoader.drop (e.cubemaps, e.services))
  have hdrop : e.drop = textureLoader.drop (e.textures, cubemapLoader.drop (e.cubemaps, e.services)) := by
    rw [drop, materialLoader_drop]
  rw [hdrop]
  exact ledger_notes.trans hcubemaps htextures

/-- The two tables' shares of a log make it up. -/
theorem filterMap_both {α : Type} (f : α → Option GpuTexture) (log : List (α ⊕ α)) :
    ((log.map (Sum.elim id id)).filterMap f : Multiset GpuTexture) =
      (log.filterMap Sum.getLeft?).filterMap f + (log.filterMap Sum.getRight?).filterMap f := by
  rw [List.filterMap_map, List.filterMap_filterMap, List.filterMap_filterMap]
  refine filterMap_split fun entry => ?_
  cases entry with
  | inl entry => exact .inl ⟨rfl, rfl⟩
  | inr entry => exact .inr ⟨rfl, rfl⟩

theorem Accounts.made_eq (h : e.Accounts log) :
    ((log.map (Sum.elim id id)).filterMap Entry.made? : Multiset GpuTexture) =
      e.textures.resources + e.cubemaps.resources + (log.map (Sum.elim id id)).filterMap Entry.given? := by
  obtain ⟨_, htextures, hleft⟩ := h.textures
  obtain ⟨_, hcubemaps, hright⟩ := h.cubemaps
  have hmade := htextures.made_eq
  have hmade' := hcubemaps.made_eq
  rw [hleft] at hmade
  rw [hright] at hmade'
  rw [filterMap_both, filterMap_both, hmade, hmade']
  abel

theorem Accounts.backed (h : e.Accounts log) {early : List (Entry GpuTexture)}
    (he : early <+: log.map (Sum.elim id id)) : Backed early := by
  obtain ⟨_, htextures, hleft⟩ := h.textures
  obtain ⟨_, hcubemaps, hright⟩ := h.cubemaps
  obtain ⟨first, hfirst, rfl⟩ := List.prefix_map_iff.mp he
  have hbacked : Backed (first.filterMap Sum.getLeft?) := by
    refine htextures.backed ?_
    rw [hleft]
    exact hfirst.filterMap _
  have hbacked' : Backed (first.filterMap Sum.getRight?) := by
    refine hcubemaps.backed ?_
    rw [hright]
    exact hfirst.filterMap _
  rw [Backed, filterMap_both, filterMap_both]
  exact add_le_add hbacked hbacked'

theorem given_map (textures : List GpuTexture) :
    (textures.map Entry.given).filterMap Entry.given? = textures := by
  rw [List.filterMap_map]
  exact List.filterMap_some

theorem made_map (textures : List GpuTexture) : (textures.map Entry.given).filterMap Entry.made? = [] := by
  rw [List.filterMap_map]
  exact List.filterMap_none textures

theorem Accounts.live (h : e.Accounts log) :
    e.services.uploader.live = e.textures.residents + e.cubemaps.residents := by
  obtain ⟨_, htextures, _⟩ := h.textures
  obtain ⟨_, hcubemaps, _⟩ := h.cubemaps
  have hmade := congrArg Multiset.card h.made_eq
  have hcreated := h.calls.created
  have hdestroyed := h.calls.destroyed
  simp only [Multiset.card_add, Multiset.coe_card, htextures.card_resources, hcubemaps.card_resources] at hmade
  rw [Uploader.live, hcreated, hdestroyed, hmade]
  change 0 + (_ + _) - (0 + _) = _
  omega

theorem given_rest (e : Engine) :
    (e.rest.filterMap Entry.given? : Multiset GpuTexture) = e.textures.resources + e.cubemaps.resources := by
  rw [rest, filterMap_append_coe, given_map, given_map, add_comm]

theorem made_rest (e : Engine) : e.rest.filterMap Entry.made? = [] := by
  rw [rest, List.filterMap_append, made_map, made_map, List.append_nil]

theorem Accounts.given_all (h : e.Accounts log) :
    ((log.map (Sum.elim id id) ++ e.rest).filterMap Entry.given? : Multiset GpuTexture) =
      (log.map (Sum.elim id id) ++ e.rest).filterMap Entry.made? := by
  rw [filterMap_append_coe, filterMap_append_coe, made_rest, given_rest, h.made_eq, Multiset.coe_nil, add_zero]
  exact add_comm _ _

theorem Accounts.live_drop (h : e.Accounts log) : e.drop.uploader.live = 0 := by
  have hall := h.calls.append e.drop_calls
  have hcard := congrArg Multiset.card h.given_all
  rw [Multiset.coe_card, Multiset.coe_card] at hcard
  rw [Uploader.live, hall.created, hall.destroyed]
  change 0 + _ - (0 + List.length (List.filterMap _ (_ ++ e.rest))) = 0
  rw [hcard]
  exact Nat.sub_self _

theorem Accounts.backed_all (h : e.Accounts log) {early : List (Entry GpuTexture)}
    (he : early <+: log.map (Sum.elim id id) ++ e.rest) : Backed early := by
  rcases prefix_append he with hfirst | ⟨more, rfl, hmore⟩
  · exact h.backed hfirst
  · have hpart : (more.filterMap Entry.given? : Multiset GpuTexture) ≤ e.rest.filterMap Entry.given? :=
      (hmore.sublist.filterMap Entry.given?).subperm
    have hall := h.given_all
    rw [filterMap_append_coe, filterMap_append_coe, made_rest, Multiset.coe_nil, add_zero] at hall
    rw [Backed, filterMap_append_coe, filterMap_append_coe]
    calc ((log.map (Sum.elim id id)).filterMap Entry.given? : Multiset GpuTexture) + more.filterMap Entry.given?
        ≤ (log.map (Sum.elim id id)).filterMap Entry.given? + e.rest.filterMap Entry.given? :=
          Multiset.add_le_add_left hpart
      _ = (log.map (Sum.elim id id)).filterMap Entry.made? := hall
      _ ≤ _ := Multiset.le_add_right _ _

/-- After every operation, as many images are alive as there are resident slots of textures and cubemaps,
and none is once the engine is dropped. In all calls of the uploader, those at the drop included, an image is
taken back only after it was made, and just once in the end; and of the handles of images and views none is
zero and none comes twice. The tables hold what was made and not taken back. -/
theorem images_balanced (h : e.Used) :
    e.services.uploader.live = e.textures.residents + e.cubemaps.residents ∧
    e.drop.uploader.live = 0 ∧
    (∃ calls, e.UsedBy calls) ∧ ∀ calls, e.UsedBy calls →
      Uploader.Calls {} calls e.services.uploader ∧
      Uploader.Calls e.services.uploader e.callsOfDrop e.drop.uploader ∧
      (calls.filterMap Entry.made? : Multiset GpuTexture) =
        e.textures.resources + e.cubemaps.resources + calls.filterMap Entry.given? ∧
      ((calls ++ e.callsOfDrop).filterMap Entry.given? : Multiset GpuTexture) =
        (calls ++ e.callsOfDrop).filterMap Entry.made? ∧
      (∀ early, early <+: calls ++ e.callsOfDrop → Backed early) ∧
      (((calls ++ e.callsOfDrop).filterMap Entry.made?).flatMap GpuTexture.handles).Nodup ∧
      0 ∉ ((calls ++ e.callsOfDrop).filterMap Entry.made?).flatMap GpuTexture.handles := by
  obtain ⟨calls, hcalls⟩ := used_iff.mp h
  obtain ⟨_, hsome, _⟩ := hcalls.accounts
  rw [callsOfDrop_eq]
  refine ⟨hsome.live, hsome.live_drop, ⟨calls, hcalls⟩, fun calls hcalls => ?_⟩
  obtain ⟨log, hlog, rfl⟩ := hcalls.accounts
  have hall := hlog.calls.append e.drop_calls
  refine ⟨hlog.calls, e.drop_calls, hlog.made_eq, hlog.given_all, fun early he => hlog.backed_all he,
    hall.handles_nodup, fun hzero => ?_⟩
  exact absurd (hall.handles_pos 0 hzero) (Nat.lt_irrefl 0)

def pixelEngine : Engine :=
  (ofServices pixelServices).performAll [(.materials, .load (.ofPath "wall.json")),
    (.cubemaps, .load (.ofPath "hall.json")), (.textures, .load (.ofPath "sky.png")), (.textures, .unload 0)]

theorem images_balanced_pixel : pixelEngine.services.uploader.live = 2 ∧
    pixelEngine.textures.residents + pixelEngine.cubemaps.residents = 2 ∧
    pixelEngine.drop.uploader.live = 0 := by
  have hused : pixelEngine.Used := .performAll (.start rfl) _
  obtain ⟨hlive, hdrop, _⟩ := images_balanced hused
  have htwo : pixelEngine.services.uploader.live = 2 := by decide +kernel
  exact ⟨htwo, hlive.symm.trans htwo, hdrop⟩

end Engine

end FrameEngine
