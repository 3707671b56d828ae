import FrameEngine.Material.Document
import Mathlib.Data.List.Nodup
import Mathlib.Logic.Relation

namespace FrameEngine.Material.Document

def IsDefault (name : String) (value : Json) : Prop :=
  match name with
  | "metallic" | "alphaCutoff" | "heightmapScale" => number? value = some 0
  | "roughness" => number? value = some 0.5
  | "albedoColor" => color? value = some .white
  | "emissiveColor" => color? value = some .black
  | "normalMapPath" | "heightmapPath" | "metalMapPath" | "roughMapPath" | "aoMapPath" | "pbrMapPath" => value = .null
  | "cullOff" | "wireframe" => value = .bool false
  | _ => False

def defaults : List (String × Json) :=
  let zero : Json := .number (.natural 0)
  let one : Json := .number (.natural 1)
  [("metallic", zero), ("roughness", .number (.real 0.5)), ("albedoColor", .array [one, one, one]),
    ("emissiveColor", .array [zero, zero, zero]), ("alphaCutoff", zero), ("normalMapPath", .null),
    ("heightmapPath", .null), ("heightmapScale", zero), ("metalMapPath", .null), ("roughMapPath", .null),
    ("aoMapPath", .null), ("pbrMapPath", .null), ("cullOff", .bool false), ("wireframe", .bool false)]

theorem isDefault_defaults : ∀ field ∈ defaults, IsDefault field.1 field.2 := by
  have hzero : number? (.number (.natural 0)) = some 0 := by decide +kernel
  have hhalf : number? (.number (.real 0.5)) = some 0.5 := by decide +kernel
  have hone : number? (.number (.natural 1)) = some 1 := by decide +kernel
  simp [defaults, IsDefault, color?, hzero, hhalf, hone, Color.white, Color.black]

/-- A way to write the members of a document otherwise. -/
inductive Edit : List (Option String × Json) → List (Option String × Json) → Prop
  | permute {members members' : List (Option String × Json)} (h : members.Perm members') : Edit members members'
  | unknown {members : List (Option String × Json)} {name : String} (hname : name ∉ names) (value : Json) :
      Edit members ((some name, value) :: members)
  | default {members : List (Option String × Json)} {name : String} {value : Json}
      (habsent : ∀ member ∈ members, member.1 ≠ some name) (h : IsDefault name value) :
      Edit members ((some name, value) :: members)

/-- Members that edits, done and undone, turn into each other. -/
def Rewritten : List (Option String × Json) → List (Option String × Json) → Prop := Relation.EqvGen Edit

section Known

variable {members : List (Option String × Json)} {found m : Members} {name : String} {value : Json}

def known (members : List (Option String × Json)) : Members :=
  members.filterMap fun member => member.1.bind fun name => if name ∈ names then some (name, member.2) else none

def Proper (members : List (Option String × Json)) : Prop :=
  (∀ member ∈ members, member.1 ≠ none) ∧ ((known members).map (·.1)).Nodup

theorem known_cons (hname : name ∈ names) : known ((some name, value) :: members) = (name, value) :: known members := by
  simp [known, hname]

theorem any_name_iff : found.any (·.1 = name) = true ↔ name ∈ found.map (·.1) := by
  simp [List.any_eq_true, List.mem_map]

theorem mem_known : (name, value) ∈ known members ↔ name ∈ names ∧ (some name, value) ∈ members := by
  rw [known, List.mem_filterMap]
  constructor
  · rintro ⟨⟨_ | name', value'⟩, hmem, hkey⟩
    · cases hkey
    · obtain ⟨hname, hpair⟩ := Option.ite_none_right_eq_some.mp hkey
      cases hpair
      exact ⟨hname, hmem⟩
  · rintro ⟨hname, hmem⟩
    exact ⟨_, hmem, if_pos hname⟩

theorem addMembers_eq_some_iff (found : Members) (hfound : (found.map (·.1)).Nodup) :
    addMembers found members = some m ↔
      (∀ member ∈ members, member.1 ≠ none) ∧ m = (known members).reverse ++ found ∧ (m.map (·.1)).Nodup := by
  -- members that are taken come in front of those found before, so `found` grows on the way
  induction members generalizing found with
  | nil =>
      rw [addMembers, known, List.filterMap_nil, List.reverse_nil, List.nil_append, Option.some_inj]
      constructor
      · rintro rfl
        exact ⟨by simp, rfl, hfound⟩
      · rintro ⟨_, rfl, _⟩
        rfl
  | cons member members ih =>
      obtain ⟨_ | name, value⟩ := member
      · simp [addMembers]
      by_cases hname : name ∈ names
      · have hreverse : (known ((some name, value) :: members)).reverse ++ found =
            (known members).reverse ++ (name, value) :: found := by simp [known_cons hname]
        rw [addMembers, if_neg (not_not.mpr hname), hreverse]
        by_cases htwice : name ∈ found.map (·.1)
        · rw [if_pos (any_name_iff.mpr htwice)]
          constructor
          · intro h
            cases h
          · rintro ⟨_, rfl, hnodup⟩
            rw [List.map_append, List.map_cons] at hnodup
            exact absurd htwice (List.nodup_cons.mp hnodup.of_append_right).1
        · have hmore : (((name, value) :: found).map (·.1)).Nodup := List.nodup_cons.mpr ⟨htwice, hfound⟩
          rw [if_neg (mt any_name_iff.mp htwice), ih _ hmore]
          simp
      · have hskipped : known ((some name, value) :: members) = known members := by simp [known, hname]
        rw [addMembers, if_pos hname, ih _ hfound, hskipped]
        simp

/-- The members of a document are those with known names, the last of them first. -/
theorem members?_of_proper (h : Proper members) : members? (.object members) = some (known members).reverse := by
  rw [members?, addMembers_eq_some_iff [] List.nodup_nil]
  refine ⟨h.1, (List.append_nil _).symm, ?_⟩
  rw [List.map_reverse, List.nodup_reverse]
  exact h.2

theorem members?_of_not_proper (h : ¬ Proper members) : members? (.object members) = none := by
  rw [Option.eq_none_iff_forall_ne_some]
  intro m hm
  rw [members?, addMembers_eq_some_iff [] List.nodup_nil, List.append_nil] at hm
  obtain ⟨htexts, rfl, hnodup⟩ := hm
  rw [List.map_reverse, List.nodup_reverse] at hnodup
  exact h ⟨htexts, hnodup⟩

theorem get?_cons (name' : String) :
    get? ((name, value) :: m) name' = if name = name' then some value else get? m name' := by
  rw [get?, get?, List.find?_cons]
  by_cases h : name = name'
  · simp [h]
  · simp [h]

theorem get?_append (m m' : Members) (name : String) : get? (m ++ m') name = (get? m name).or (get? m' name) := by
  rw [get?, get?, get?, List.find?_append]
  cases m.find? (·.1 = name) <;> rfl

theorem get?_eq_none_iff : get? m name = none ↔ ∀ member ∈ m, member.1 ≠ name := by
  simp [get?]

/-- Where no name comes twice, a field has the value of any member of its name. -/
theorem get?_eq_some_iff (hm : (m.map (·.1)).Nodup) : get? m name = some value ↔ (name, value) ∈ m := by
  induction m with
  | nil => simp [get?]
  | cons member m ih =>
      obtain ⟨hfirst, hrest⟩ := List.nodup_cons.mp hm
      obtain ⟨name', value'⟩ := member
      rw [get?_cons, List.mem_cons, ← ih hrest]
      by_cases hname : name' = name
      · subst hname
        have habsent : get? m name' ≠ some value := by
          rw [Ne, ih hrest]
          intro hmem
          exact hfirst (List.mem_map.mpr ⟨_, hmem, rfl⟩)
        simp [habsent, eq_comm]
      · simp [hname, Ne.symm hname]

end Known

def Spells (m m' : Members) : Prop :=
  ∀ name, get? m' name = get? m name ∨
    get? m name = none ∧ ∃ value, get? m' name = some value ∧ IsDefault name value

section Edits

variable {members members' : List (Option String × Json)} {name : String} {value : Json}

theorem known_of_isDefault (h : IsDefault name value) : name ∈ names := by
  by_contra hname
  simp only [names, List.mem_cons, List.not_mem_nil, or_false, not_or] at hname
  simp [IsDefault, hname] at h

theorem rel_of_proper (hproper : Proper members ↔ Proper members')
    (hspells : Proper members → Proper members' → Spells (known members).reverse (known members').reverse) :
    Option.Rel Spells (members? (.object members)) (members? (.object members')) := by
  by_cases h : Proper members
  · have h' := hproper.mp h
    rw [members?_of_proper h, members?_of_proper h']
    exact .some (hspells h h')
  · rw [members?_of_not_proper h, members?_of_not_proper (mt hproper.mpr h)]
    exact .none

/-- The order of members does not matter. -/
theorem rel_of_perm (h : members.Perm members') :
    Option.Rel Spells (members? (.object members)) (members? (.object members')) := by
  have hknown : (known members).Perm (known members') := h.filterMap _
  apply rel_of_proper
  · exact and_congr (by simp only [h.mem_iff]) (hknown.map _).nodup_iff
  · intro hproper hproper' name
    -- no name comes twice, so values can be told by membership, and that does not depend on the order
    left
    apply Option.ext
    intro value
    have hm : ((known members).reverse.map (·.1)).Nodup := by
      rw [List.map_reverse, List.nodup_reverse]
      exact hproper.2
    have hm' : ((known members').reverse.map (·.1)).Nodup := by
      rw [List.map_reverse, List.nodup_reverse]
      exact hproper'.2
    rw [get?_eq_some_iff hm', get?_eq_some_iff hm, List.mem_reverse, List.mem_reverse, hknown.mem_iff]

theorem rel_of_unknown (hname : name ∉ names) :
    Option.Rel Spells (members? (.object members)) (members? (.object ((some name, value) :: members))) := by
  have hskipped : known ((some name, value) :: members) = known members := by simp [known, hname]
  apply rel_of_proper
  · rw [Proper, Proper, hskipped, List.forall_mem_cons]
    simp
  · intro _ _ name
    rw [hskipped]
    exact .inl rfl

theorem rel_of_default (habsent : ∀ member ∈ members, member.1 ≠ some name) (h : IsDefault name value) :
    Option.Rel Spells (members? (.object members)) (members? (.object ((some name, value) :: members))) := by
  have hknown := known_of_isDefault h
  have hnew : ∀ member ∈ known members, member.1 ≠ name := by
    rintro ⟨name', value'⟩ hmember rfl
    exact habsent _ (mem_known.mp hmember).2 rfl
  apply rel_of_proper
  · have hfresh : name ∉ (known members).map (·.1) := by
      rw [List.mem_map]
      rintro ⟨member, hmember, heq⟩
      exact hnew member hmember heq
    rw [Proper, Proper, known_cons hknown, List.forall_mem_cons, List.map_cons, List.nodup_cons]
    simp [hfresh]
  · intro _ _ name'
    have hleft : get? (known members).reverse name = none := get?_eq_none_iff.mpr fun member hmember =>
      hnew member (List.mem_reverse.mp hmember)
    rw [known_cons hknown, List.reverse_cons, get?_append, get?_cons]
    by_cases hname : name = name'
    · subst hname
      right
      exact ⟨hleft, value, by simp [hleft], h⟩
    · left
      simp [hname, get?]

theorem Edit.rel (h : Edit members members') :
    Option.Rel Spells (members? (.object members)) (members? (.object members')) := by
  cases h with
  | permute h => exact rel_of_perm h
  | unknown hname => exact rel_of_unknown hname
  | default habsent h => exact rel_of_default habsent h

end Edits

section Fields

variable {α β γ δ : Type}

def shown : Option Color → Color
  | some color => if color.sum ≥ emissiveThreshold then color else .black
  | none => .black

def explicit (document : Document) : Document :=
  { document with
    emissiveColor := some (shown document.emissiveColor)
    cullOff := some (.bool (isOn document.cullOff))
    wireframe := some (.bool (isOn document.wireframe)) }

theorem shown_shown (color : Option Color) : shown (some (shown color)) = shown color := by
  cases color with
  | none =>
      have hblack : shown none = .black := rfl
      rw [hblack, shown, ite_self]
  | some color =>
      rw [shown, shown]
      by_cases h : color.sum ≥ emissiveThreshold
      · rw [if_pos h, if_pos h]
      · rw [if_neg h, ite_self]

theorem emissive_explicit (document : Document) : document.explicit.emissive = document.emissive :=
  shown_shown document.emissiveColor

theorem material_explicit (document : Document) : document.explicit.material = document.material := by
  funext maps
  rw [material, material, emissive_explicit]
  rfl

/-- Reads the explicit document: where a default is in writing, it is as good as left out. -/
def explicitOf? (m : Members) : Option Document := do
  return {
    albedoPath := ← field m "albedoPath" none text?
    metallic := ← field m "metallic" (some 0) number?
    roughness := ← field m "roughness" (some 0.5) number?
    albedoColor := ← field m "albedoColor" (some .white) color?
    emissiveColor := some (← (field m "emissiveColor" (some none) (optional color?)).map shown)
    alphaCutoff := ← field m "alphaCutoff" (some 0) number?
    normalMapPath := ← field m "normalMapPath" (some none) (optional text?)
    heightmapPath := ← field m "heightmapPath" (some none) (optional text?)
    heightmapScale := ← field m "heightmapScale" (some 0) number?
    metalMapPath := ← field m "metalMapPath" (some none) (optional text?)
    roughMapPath := ← field m "roughMapPath" (some none) (optional text?)
    aoMapPath := ← field m "aoMapPath" (some none) (optional text?)
    pbrMapPath := ← field m "pbrMapPath" (some none) (optional text?)
    cullOff := some (.bool (← (field m "cullOff" (some none) (optional any?)).map isOn))
    wireframe := some (.bool (← (field m "wireframe" (some none) (optional any?)).map isOn)) }

theorem map_bind_same {x : Option α} {f : α → Option β} {g : α → Option γ} {u : β → γ}
    (h : ∀ a, (f a).map u = g a) : (x >>= f).map u = x >>= g := by
  cases x with
  | none => rfl
  | some a => exact h a

theorem map_bind_viewed {x : Option α} {view : α → δ} {f : α → Option β} {g : δ → Option γ} {u : β → γ}
    (h : ∀ a, (f a).map u = g (view a)) : (x >>= f).map u = x.map view >>= g := by
  cases x with
  | none => rfl
  | some a => exact h a

theorem map_explicit_ofMembers? (m : Members) : (ofMembers? m).map explicit = explicitOf? m := by
  rw [ofMembers?, explicitOf?]
  -- four fields come before the emissive color, and eight between it and the two flags
  iterate 4
    apply map_bind_same
    intro
  apply map_bind_viewed
  intro
  iterate 8
    apply map_bind_same
    intro
  iterate 2
    apply map_bind_viewed
    intro
  rfl

variable {m m' : Members} {name : String}

/-- A field is read alike in both spellings, as far as `view` can tell, if that is so of its default. -/
theorem map_field {absent : Option β} {decode : Json → Option β} {view : β → γ} (h : Spells m m')
    (hdefault : ∀ value, IsDefault name value → (decode value).map view = absent.map view) :
    (field m name absent decode).map view = (field m' name absent decode).map view := by
  rw [field, field]
  obtain hsame | ⟨habsent, value, hvalue, hvalid⟩ := h name
  · rw [hsame]
  · rw [habsent, hvalue]
    exact (hdefault value hvalid).symm

theorem field_same (h : Spells m m') (name : String) (absent : Option β) (decode : Json → Option β)
    (hdefault : ∀ value, IsDefault name value → decode value = absent) :
    field m name absent decode = field m' name absent decode := by
  have hmap : (field m name absent decode).map id = (field m' name absent decode).map id := by
    apply map_field h
    intro value hvalue
    rw [hdefault value hvalue]
  rwa [Option.map_id, id, id] at hmap

theorem field_path (h : Spells m m') (name : String) (hnull : ∀ value, IsDefault name value → value = .null) :
    field m name (some none) (optional text?) = field m' name (some none) (optional text?) := by
  apply field_same h
  intro value hvalue
  rw [hnull value hvalue, optional]

theorem map_flag (h : Spells m m') (name : String) (hoff : ∀ value, IsDefault name value → value = .bool false) :
    (field m name (some none) (optional any?)).map isOn = (field m' name (some none) (optional any?)).map isOn := by
  apply map_field h
  intro value hvalue
  rw [hoff value hvalue]
  rfl

/-- Black is shown where no emissive color is given, and a color is not shown otherwise than it is when it is black. -/
theorem map_emissive (h : Spells m m') :
    (field m "emissiveColor" (some none) (optional color?)).map shown =
      (field m' "emissiveColor" (some none) (optional color?)).map shown := by
  apply map_field h
  intro value hvalue
  have hblack : color? value = some .black := hvalue
  rw [optional, hblack]
  · exact congrArg some (shown_shown none)
  · rintro rfl
    cases hblack

/-- Documents with the same values, but for defaults, say the same. -/
theorem explicit_of_spells (h : Spells m m') : (ofMembers? m).map explicit = (ofMembers? m').map explicit := by
  have hwhite : field m "albedoColor" (some .white) color? = field m' "albedoColor" (some .white) color? :=
    field_same h _ _ _ fun _ hdefault => hdefault
  rw [map_explicit_ofMembers?, map_explicit_ofMembers?, explicitOf?, explicitOf?,
    field_same h "albedoPath" none text? fun _ hdefault => False.elim hdefault,
    field_same h "metallic" (some 0) number? fun _ hdefault => hdefault,
    field_same h "roughness" (some 0.5) number? fun _ hdefault => hdefault,
    hwhite, map_emissive h,
    field_same h "alphaCutoff" (some 0) number? fun _ hdefault => hdefault,
    field_path h "normalMapPath" fun _ hdefault => hdefault,
    field_path h "heightmapPath" fun _ hdefault => hdefault,
    field_same h "heightmapScale" (some 0) number? fun _ hdefault => hdefault,
    field_path h "metalMapPath" fun _ hdefault => hdefault,
    field_path h "roughMapPath" fun _ hdefault => hdefault,
    field_path h "aoMapPath" fun _ hdefault => hdefault,
    field_path h "pbrMapPath" fun _ hdefault => hdefault,
    map_flag h "cullOff" fun _ hdefault => hdefault,
    map_flag h "wireframe" fun _ hdefault => hdefault]

end Fields

section Rewriting

variable {members members' : List (Option String × Json)} {name : String} {value : Json}

theorem Rewritten.unknown (before after : List (Option String × Json)) (hname : name ∉ names) (value : Json) :
    Rewritten (before ++ after) (before ++ (some name, value) :: after) := by
  apply Relation.EqvGen.trans
  · exact .rel _ _ (.unknown hname value)
  · exact .rel _ _ (.permute List.perm_middle.symm)

theorem Rewritten.default (before after : List (Option String × Json))
    (habsent : ∀ member ∈ before ++ after, member.1 ≠ some name) (h : IsDefault name value) :
    Rewritten (before ++ after) (before ++ (some name, value) :: after) := by
  apply Relation.EqvGen.trans
  · exact .rel _ _ (.default habsent h)
  · exact .rel _ _ (.permute List.perm_middle.symm)

theorem Edit.explicit (h : Edit members members') :
    (ofJson? (.object members)).map explicit = (ofJson? (.object members')).map explicit := by
  have hrel := h.rel
  rw [ofJson?, ofJson?]
  generalize members? (.object members) = m at hrel ⊢
  generalize members? (.object members') = m' at hrel ⊢
  cases hrel with
  | none => rfl
  | some hspells => exact explicit_of_spells hspells

/-- However its members are rewritten, an object is the same document, or none. -/
theorem Rewritten.explicit (h : Rewritten members members') :
    (ofJson? (.object members)).map Document.explicit = (ofJson? (.object members')).map Document.explicit := by
  induction h with
  | rel _ _ hedit => exact hedit.explicit
  | refl => rfl
  | symm _ _ _ ih => exact ih.symm
  | trans _ _ _ _ _ ih ih' => exact ih.trans ih'

end Rewriting

end FrameEngine.Material.Document
