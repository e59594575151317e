import StreamTypes.Proofs.Config.Fields
import StreamTypes.Proofs.Dot.Unambiguous

/-!
# The values that are configurations

A value is read in layers: the outer mapping, the mapping of the graph in it, and the values of
fields. For each reader it is said which settings it yields, and that it rejects everything else;
readers that are put behind one another yield what their parts do. That the name of a direction is
looked at a second time has no effect, since the first look has let through the names of directions
only.

## Main definitions

- `Config.Admits` — what a reader yields, while it rejects everything else
- `Config.Given` — what a field says, or a standard in its place
- `Config.IsConfig` — the settings that a value describes
- `Config.Acceptable` — the values that are accepted, without the settings
- `Config.Reordered` — values with the same entries in another order

## Main statements

- `Config.Admits.bind` — readers behind one another
- `Config.admits_ofValue?` — which settings are read from a value
- `Config.exists_isConfig_iff` — when there are some
- `Config.ofValue?_of_reordered` — the order of entries does not count
- `Config.acceptance_exact` — all of this
-/

namespace StreamTypes

namespace Config

open Yaml (Scalar Value OneValued ShortKeys DistinctKeys)

variable {α β : Type} {entries entries' : List (Scalar × Value)} {known : List String}
  {part : ConfigPart} {name : String} {v w : Value}

/-! ### Readers -/

/-- A file is rejected for a fault of its value. -/
def Rejects (fault : SettingsFault) : Prop :=
  ∀ label, LoadFault.ofSettings label fault = .rejected (.settings label fault)

/-- What a reader yields has a property, which nothing else has, and otherwise the file is
rejected. -/
structure Admits (result : Except SettingsFault α) (P : α → Prop) : Prop where
  eq_ok_iff : ∀ x, result = .ok x ↔ P x
  rejects : ∀ fault, result = .error fault → Rejects fault

theorem admits_ok {P : α → Prop} {x : α} (hP : ∀ y, P y ↔ y = x) : Admits (.ok x) P where
  eq_ok_iff y := by rw [hP, Except.ok.injEq, eq_comm]
  rejects _ h := nomatch h

theorem admits_error {P : α → Prop} {fault : SettingsFault} (h : Rejects fault)
    (hP : ∀ x, ¬ P x) : Admits (.error fault) P where
  eq_ok_iff x := ⟨fun hx => (nomatch hx), fun hx => absurd hx (hP x)⟩
  rejects _ hfault := Except.error.inj hfault ▸ h

theorem Admits.congr {result : Except SettingsFault α} {P Q : α → Prop} (h : Admits result P)
    (hPQ : ∀ x, P x ↔ Q x) : Admits result Q where
  eq_ok_iff x := (h.eq_ok_iff x).trans (hPQ x)
  rejects := h.rejects

/-- A reader behind another one, which may rely on what the first one yields. -/
theorem Admits.bind {result : Except SettingsFault α} {P : α → Prop}
    {next : α → Except SettingsFault β} {Q : α → β → Prop} (h : Admits result P)
    (hnext : ∀ x, P x → Admits (next x) (Q x)) :
    Admits (result >>= next) (fun y => ∃ x, P x ∧ Q x y) := by
  cases result with
  | error fault =>
    refine ⟨fun y => ⟨fun hy => (nomatch hy), ?_⟩, fun fault' h' => ?_⟩
    · rintro ⟨x, hx, -⟩
      exact nomatch (h.eq_ok_iff x).2 hx
    · exact Except.error.inj h' ▸ h.rejects fault rfl
  | ok x =>
    have hx : P x := (h.eq_ok_iff x).1 rfl
    refine ⟨fun y => ((hnext x hx).eq_ok_iff y).trans ⟨fun hy => ⟨x, hx, hy⟩, ?_⟩,
      (hnext x hx).rejects⟩
    rintro ⟨x', hx', hy⟩
    obtain rfl : x = x' := Except.ok.inj ((h.eq_ok_iff x').2 hx')
    exact hy

/-! ### Fields -/

/-- What a field says: there is a value that means it, or there is no value and it is the
standard. -/
def Given (entries : List (Scalar × Value)) (name : String) (standard : α)
    (Means : Value → α → Prop) (x : α) : Prop :=
  (∃ v, (Scalar.ofString name, v) ∈ entries ∧ Means v x) ∨
    (∀ v, (Scalar.ofString name, v) ∉ entries) ∧ x = standard

/-- The value of a field is of some kind if there is one. -/
def IfPresent (entries : List (Scalar × Value)) (name : String) (P : Value → Prop) : Prop :=
  ∀ v, (Scalar.ofString name, v) ∈ entries → P v

theorem exists_given_iff (h : OneValued entries) {standard : α} {Means : Value → α → Prop} :
    (∃ x, Given entries name standard Means x) ↔
      IfPresent entries name fun v => ∃ x, Means v x := by
  constructor
  · rintro ⟨x, ⟨v, hv, hx⟩ | ⟨habsent, -⟩⟩ w hw
    · exact h name v w hv hw ▸ ⟨x, hx⟩
    · exact absurd hw (habsent w)
  · intro hpresent
    by_cases hex : ∃ v, (Scalar.ofString name, v) ∈ entries
    · obtain ⟨v, hv⟩ := hex
      obtain ⟨x, hx⟩ := hpresent v hv
      exact ⟨x, .inl ⟨v, hv, hx⟩⟩
    · exact ⟨standard, .inr ⟨not_exists.1 hex, rfl⟩⟩

/-- A field that is read as something that stands for something else. -/
theorem given_comp {f : α → β} (hf : Function.Injective f) {standard x : α}
    {Means : Value → β → Prop} :
    Given entries name (f standard) Means (f x) ↔
      Given entries name standard (fun v y => Means v (f y)) x := by
  rw [Given, Given, hf.eq_iff]

theorem admits_fieldOr (h : OneValued entries) {standard : α}
    {read : Value → Except SettingsFault α} {Means : Value → α → Prop}
    (hread : ∀ v, (Scalar.ofString name, v) ∈ entries → Admits (read v) (Means v)) :
    Admits (fieldOr entries name standard read) (Given entries name standard Means) := by
  cases hfield : field? entries name with
  | none =>
    have habsent := field?_eq_none_iff.1 hfield
    rw [fieldOr, hfield]
    refine admits_ok fun x => ⟨?_, fun hx => .inr ⟨habsent, hx⟩⟩
    rintro (⟨v, hv, -⟩ | ⟨-, hx⟩)
    · exact absurd hv (habsent v)
    · exact hx
  | some v =>
    have hv := mem_of_field?_eq_some hfield
    rw [fieldOr, hfield]
    refine (hread v hv).congr fun x => ⟨fun hx => .inl ⟨v, hv, hx⟩, ?_⟩
    rintro (⟨w, hw, hx⟩ | ⟨habsent, -⟩)
    · exact h name v w hv hw ▸ hx
    · exact absurd hv (habsent v)

/-- A value is a text. -/
def IsText (v : Value) (text : WideText) : Prop :=
  v = .scalar (.str text)

/-- A value is a depth that is allowed. -/
def IsDepth (v : Value) (n : Int) : Prop :=
  v = .scalar (.int n) ∧ 1 ≤ n

/-- A value is a truth value. -/
def IsTruth (v : Value) (b : Bool) : Prop :=
  v = .scalar (.bool b)

/-- A value is the name of a direction. -/
def IsDirection (v : Value) (direction : RankDir) : Prop :=
  v = .scalar (.ofString direction.name)

theorem admits_text? (v : Value) : Admits (text? name v) (IsText v) := by
  cases v with
  | scalar key =>
    cases key with
    | str s => exact admits_ok fun t => by simp [IsText, eq_comm]
    | _ => exact admits_error (fun _ => rfl) (by simp [IsText])
  | _ => exact admits_error (fun _ => rfl) (by simp [IsText])

theorem admits_clusters? (v : Value) : Admits (clusters? v) (IsTruth v) := by
  cases v with
  | scalar key =>
    cases key with
    | bool b => exact admits_ok fun c => by simp [IsTruth, eq_comm]
    | _ => exact admits_error (fun _ => rfl) (by simp [IsTruth])
  | _ => exact admits_error (fun _ => rfl) (by simp [IsTruth])

theorem admits_depth? (v : Value) : Admits (depth? v) (IsDepth v) := by
  cases v with
  | scalar key =>
    cases key with
    | int n =>
      by_cases hn : n < 1
      · rw [depth?, if_pos hn]
        refine admits_error (fun _ => rfl) fun m hm => ?_
        simp only [IsDepth, Value.scalar.injEq, Scalar.int.injEq] at hm
        omega
      · rw [depth?, if_neg hn]
        refine admits_ok fun m => ?_
        simp only [IsDepth, Value.scalar.injEq, Scalar.int.injEq]
        omega
    | _ => exact admits_error (fun _ => rfl) (by simp [IsDepth])
  | _ => exact admits_error (fun _ => rfl) (by simp [IsDepth])

/-- A truth value is no number. -/
example : depth? (.scalar (.bool true)) = .error .depthType := by
  rfl

/-! ### Mappings -/

/-- A value is a mapping with known keys only, and with these entries. -/
def IsMapping (known : List String) (v : Value) (entries : List (Scalar × Value)) : Prop :=
  v = .mapping entries ∧ KeysAmong known entries

theorem admits_knownEntries? (part : ConfigPart) (hv : v.Loaded) :
    Admits (knownEntries? part known v) (IsMapping known v) := by
  cases v with
  | mapping entries =>
    obtain ⟨-, hshort, -⟩ := Value.loaded_mapping_iff.1 hv
    by_cases hknown : KeysAmong known entries
    · rw [knownEntries?_of_keysAmong hshort hknown]
      refine admits_ok fun fields => ?_
      simp only [IsMapping, Value.mapping.injEq]
      exact ⟨fun h => h.1.symm, fun h => ⟨h.symm, h ▸ hknown⟩⟩
    · obtain ⟨names, herror⟩ := knownEntries?_of_not_keysAmong part hshort hknown
      rw [herror]
      refine admits_error (fun _ => rfl) fun fields h => ?_
      simp only [IsMapping, Value.mapping.injEq] at h
      exact hknown (h.1 ▸ h.2)
  | _ => exact admits_error (fun _ => rfl) (by simp [IsMapping])

/-- What the entries of the mapping of the graph set. -/
structure SetsGraph (entries : List (Scalar × Value)) (options : DotOptions) : Prop where
  keys : KeysAmong ["name", "rankdir", "fontname", "clusters"] entries
  graphName : Given entries "name" ({} : DotOptions).graphName IsText options.graphName
  rankdir : Given entries "rankdir" ({} : DotOptions).rankdir IsDirection options.rankdir
  fontname : Given entries "fontname" ({} : DotOptions).fontname IsText options.fontname
  clusters : Given entries "clusters" ({} : DotOptions).clusters IsTruth options.clusters

/-- A value describes presentation settings. -/
def IsGraph (v : Value) (options : DotOptions) : Prop :=
  ∃ entries, v = .mapping entries ∧ SetsGraph entries options

/-- What the entries of the outer mapping set. -/
structure Sets (entries : List (Scalar × Value)) (config : Config) : Prop where
  keys : KeysAmong ["max-depth", "graph"] entries
  maxDepth : Given entries "max-depth" ({} : Config).maxDepth IsDepth config.maxDepth
  render : Given entries "graph" ({} : Config).render IsGraph config.render

theorem ofName?_eq_some_iff {text : WideText} {direction : RankDir} :
    RankDir.ofName? text = some direction ↔ text = .ofString direction.name := by
  constructor
  · intro h
    have hname := List.find?_some h
    exact (of_decide_eq_true hname).symm
  · rintro rfl
    cases direction <;> decide

theorem ofString_name_injective :
    Function.Injective fun direction : RankDir => WideText.ofString direction.name :=
  WideText.ofString_injective.comp RankDir.name_injective

/-- The direction is looked up when all fields are read. The second look finds what the first one
has found, and never fails. -/
theorem admits_direction (graphName rankdir fontname : WideText) (clusters : Bool) :
    Admits (do
      if RankDir.ofName? rankdir = none then throw (.unknownDirection rankdir)
      match DotOptions.ofNames? graphName rankdir fontname clusters with
      | .error name => throw (.refusedDirection name)
      | .ok options => return options)
      fun options => graphName = options.graphName ∧
        rankdir = .ofString options.rankdir.name ∧ fontname = options.fontname ∧
          clusters = options.clusters := by
  cases hdirection : RankDir.ofName? rankdir with
  | none =>
    rw [if_pos rfl]
    refine admits_error (fun _ => rfl) fun options h => ?_
    rw [ofName?_eq_some_iff.2 h.2.1] at hdirection
    cases hdirection
  | some direction =>
    rw [if_neg (by simp), DotOptions.ofNames?, hdirection]
    refine admits_ok fun options => ?_
    rw [← ofName?_eq_some_iff, hdirection]
    cases options
    simp only [DotOptions.mk.injEq, Option.some.injEq, eq_comm]

theorem IsMapping.oneValued (h : IsMapping known v entries) (hv : v.Loaded) :
    OneValued entries := by
  obtain ⟨rfl, -⟩ := h
  exact (Value.loaded_mapping_iff.1 hv).1.oneValued

theorem IsMapping.loaded (h : IsMapping known v entries) (hv : v.Loaded)
    {entry : Scalar × Value} (hentry : entry ∈ entries) : entry.2.Loaded := by
  obtain ⟨rfl, -⟩ := h
  exact (Value.loaded_mapping_iff.1 hv).2.2 entry hentry

theorem admits_dotOptions? (hv : v.Loaded) : Admits (dotOptions? v) (IsGraph v) := by
  unfold dotOptions?
  apply Admits.congr
  · apply (admits_knownEntries? .graph hv).bind
    intro entries hentries
    have hone := hentries.oneValued hv
    apply (admits_fieldOr hone fun w _ => admits_text? w).bind
    intro graphName _
    apply (admits_fieldOr hone fun w _ => admits_text? w).bind
    intro rankdir _
    apply (admits_fieldOr hone fun w _ => admits_text? w).bind
    intro fontname _
    apply (admits_fieldOr hone fun w _ => admits_clusters? w).bind
    intro clusters _
    exact admits_direction graphName rankdir fontname clusters
  · intro options
    constructor
    · rintro ⟨entries, ⟨rfl, hkeys⟩, _, hname, _, hdirection, _, hfont, _, hclusters, rfl, rfl,
        rfl, rfl⟩
      exact ⟨entries, rfl, hkeys, hname, (given_comp ofString_name_injective).1 hdirection,
        hfont, hclusters⟩
    · rintro ⟨entries, rfl, h⟩
      exact ⟨entries, ⟨rfl, h.keys⟩, _, h.graphName, _,
        (given_comp ofString_name_injective).2 h.rankdir, _, h.fontname, _, h.clusters, rfl,
        rfl, rfl, rfl⟩

/-- A value describes settings; nothing describes the standard ones. -/
def IsConfig (v : Value) (config : Config) : Prop :=
  (v = .scalar .null ∧ config = {}) ∨ ∃ entries, v = .mapping entries ∧ Sets entries config

theorem admits_ofValue? (hv : v.Loaded) : Admits (ofValue? v) (IsConfig v) := by
  by_cases hnull : v = .scalar .null
  · subst hnull
    exact admits_ok fun config => by simp [IsConfig]
  · unfold ofValue?
    split
    · exact absurd rfl hnull
    · apply Admits.congr
      · apply (admits_knownEntries? .whole hv).bind
        intro entries hentries
        have hone := hentries.oneValued hv
        apply (admits_fieldOr hone fun w _ => admits_depth? w).bind
        intro maxDepth _
        apply (admits_fieldOr hone fun w hw => admits_dotOptions? (hentries.loaded hv hw)).bind
        intro render _
        exact admits_ok fun config => Iff.rfl
      · intro config
        constructor
        · rintro ⟨entries, ⟨rfl, hkeys⟩, _, hdepth, _, hrender, rfl⟩
          exact .inr ⟨entries, rfl, hkeys, hdepth, hrender⟩
        · rintro (⟨hv, -⟩ | ⟨entries, rfl, h⟩)
          · exact absurd hv hnull
          · exact ⟨entries, ⟨rfl, h.keys⟩, _, h.maxDepth, _, h.render, rfl⟩

/-! ### Values that are accepted -/

/-- The entries of the mapping of the graph are as they should be. -/
structure AcceptableGraph (entries : List (Scalar × Value)) : Prop where
  keys : KeysAmong ["name", "rankdir", "fontname", "clusters"] entries
  graphName : IfPresent entries "name" fun v => ∃ text, v = .scalar (.str text)
  rankdir : IfPresent entries "rankdir" fun v =>
    ∃ name ∈ ["TB", "LR", "BT", "RL"], v = .scalar (.ofString name)
  fontname : IfPresent entries "fontname" fun v => ∃ text, v = .scalar (.str text)
  clusters : IfPresent entries "clusters" fun v => ∃ b, v = .scalar (.bool b)

/-- The entries of the outer mapping are as they should be. -/
structure AcceptableEntries (entries : List (Scalar × Value)) : Prop where
  keys : KeysAmong ["max-depth", "graph"] entries
  maxDepth : IfPresent entries "max-depth" fun v => ∃ n, v = .scalar (.int n) ∧ 1 ≤ n
  graph : IfPresent entries "graph" fun v =>
    ∃ fields, v = .mapping fields ∧ AcceptableGraph fields

/-- The values that are accepted. -/
def Acceptable (v : Value) : Prop :=
  v = .scalar .null ∨ ∃ entries, v = .mapping entries ∧ AcceptableEntries entries

theorem exists_isDirection_iff :
    (∃ direction, IsDirection v direction) ↔
      ∃ name ∈ ["TB", "LR", "BT", "RL"], v = .scalar (.ofString name) := by
  constructor
  · rintro ⟨direction, h⟩
    exact ⟨direction.name, by cases direction <;> decide, h⟩
  · rintro ⟨name, hname, h⟩
    simp only [List.mem_cons, List.not_mem_nil, or_false] at hname
    obtain rfl | rfl | rfl | rfl := hname
    · exact ⟨.topBottom, h⟩
    · exact ⟨.leftRight, h⟩
    · exact ⟨.bottomTop, h⟩
    · exact ⟨.rightLeft, h⟩

theorem exists_setsGraph_iff (h : OneValued entries) :
    (∃ options, SetsGraph entries options) ↔ AcceptableGraph entries := by
  constructor
  · rintro ⟨options, hset⟩
    refine ⟨hset.keys, ?_, ?_, ?_, ?_⟩
    · exact (exists_given_iff h).1 ⟨_, hset.graphName⟩
    · simp only [← exists_isDirection_iff]
      exact (exists_given_iff h).1 ⟨_, hset.rankdir⟩
    · exact (exists_given_iff h).1 ⟨_, hset.fontname⟩
    · exact (exists_given_iff h).1 ⟨_, hset.clusters⟩
  · intro haccept
    have hdirection := haccept.rankdir
    simp only [← exists_isDirection_iff] at hdirection
    obtain ⟨graphName, hname⟩ := (exists_given_iff h).2 haccept.graphName
    obtain ⟨rankdir, hrankdir⟩ := (exists_given_iff h).2 hdirection
    obtain ⟨fontname, hfont⟩ := (exists_given_iff h).2 haccept.fontname
    obtain ⟨clusters, hclusters⟩ := (exists_given_iff h).2 haccept.clusters
    exact ⟨⟨graphName, rankdir, fontname, clusters⟩, haccept.keys, hname, hrankdir, hfont,
      hclusters⟩

theorem exists_isGraph_iff (hv : v.Loaded) :
    (∃ options, IsGraph v options) ↔ ∃ fields, v = .mapping fields ∧ AcceptableGraph fields := by
  constructor
  · rintro ⟨options, fields, rfl, hset⟩
    have hone := (Value.loaded_mapping_iff.1 hv).1.oneValued
    exact ⟨fields, rfl, (exists_setsGraph_iff hone).1 ⟨options, hset⟩⟩
  · rintro ⟨fields, rfl, haccept⟩
    have hone := (Value.loaded_mapping_iff.1 hv).1.oneValued
    obtain ⟨options, hset⟩ := (exists_setsGraph_iff hone).2 haccept
    exact ⟨options, fields, rfl, hset⟩

theorem exists_isConfig_iff (hv : v.Loaded) : (∃ config, IsConfig v config) ↔ Acceptable v := by
  constructor
  · rintro ⟨config, ⟨rfl, -⟩ | ⟨entries, rfl, hset⟩⟩
    · exact .inl rfl
    · obtain ⟨hdistinct, -, hvalues⟩ := Value.loaded_mapping_iff.1 hv
      have hone := hdistinct.oneValued
      refine .inr ⟨entries, rfl, hset.keys, ?_, ?_⟩
      · exact (exists_given_iff hone).1 ⟨_, hset.maxDepth⟩
      · intro graph hgraph
        have hoptions := (exists_given_iff hone).1 ⟨_, hset.render⟩
        exact (exists_isGraph_iff (hvalues _ hgraph)).1 (hoptions graph hgraph)
  · rintro (rfl | ⟨entries, rfl, haccept⟩)
    · exact ⟨{}, .inl ⟨rfl, rfl⟩⟩
    · obtain ⟨hdistinct, -, hvalues⟩ := Value.loaded_mapping_iff.1 hv
      have hone := hdistinct.oneValued
      obtain ⟨maxDepth, hdepth⟩ := (exists_given_iff hone).2 haccept.maxDepth
      have hoptions : IfPresent entries "graph" fun graph => ∃ options, IsGraph graph options :=
        fun graph hgraph =>
          (exists_isGraph_iff (hvalues _ hgraph)).2 (haccept.graph graph hgraph)
      obtain ⟨render, hrender⟩ := (exists_given_iff hone).2 hoptions
      exact ⟨⟨maxDepth, render⟩, .inr ⟨entries, rfl, haccept.keys, hdepth, hrender⟩⟩

/-! ### The order of entries -/

/-- The same value, or a mapping with the same entries in another order. -/
inductive Shuffled : Value → Value → Prop
  | refl (v : Value) : Shuffled v v
  | mapping {entries entries' : List (Scalar × Value)} (h : entries.Perm entries') :
    Shuffled (.mapping entries) (.mapping entries')

/-- The same key, with a value whose entries may be in another order. -/
def SameEntry (x y : Scalar × Value) : Prop :=
  x.1 = y.1 ∧ Shuffled x.2 y.2

/-- Mappings with the same entries in another order, both in the mapping itself and in the
mappings that are values in it. -/
inductive Reordered : Value → Value → Prop
  | mapping {entries outer entries' : List (Scalar × Value)} (houter : entries.Perm outer)
    (hinner : List.Forall₂ SameEntry outer entries') :
    Reordered (.mapping entries) (.mapping entries')

theorem keys_of_sameEntry (h : List.Forall₂ SameEntry entries entries') :
    entries.map Prod.fst = entries'.map Prod.fst := by
  induction h with
  | nil => rfl
  | cons hentry _ ih => rw [List.map_cons, List.map_cons, hentry.1, ih]

theorem field?_of_sameEntry (h : List.Forall₂ SameEntry entries entries') :
    Option.Rel Shuffled (field? entries name) (field? entries' name) := by
  induction h with
  | nil => exact .none
  | @cons x y _ _ hentry _ ih =>
    obtain ⟨key, v⟩ := x
    obtain ⟨key', w⟩ := y
    obtain ⟨rfl, hvalue⟩ := hentry
    by_cases hkey : key.isText name
    · simpa [field?, hkey] using Option.Rel.some hvalue
    · simpa [field?, hkey] using ih

theorem fieldOr_congr {read : Value → Except SettingsFault α} {standard : α}
    (h : Option.Rel Shuffled (field? entries name) (field? entries' name))
    (hread : ∀ v w, (Scalar.ofString name, v) ∈ entries → Shuffled v w → read w = read v) :
    fieldOr entries' name standard read = fieldOr entries name standard read := by
  unfold fieldOr
  generalize hfield : field? entries name = found at h ⊢
  generalize field? entries' name = found' at h ⊢
  cases h with
  | none => rfl
  | some hvw => exact hread _ _ (mem_of_field?_eq_some hfield) hvw

theorem fieldOr_perm (h : OneValued entries) (hperm : entries.Perm entries')
    (standard : α) (read : Value → Except SettingsFault α) :
    fieldOr entries' name standard read = fieldOr entries name standard read := by
  rw [fieldOr, fieldOr, field?_perm h hperm]

theorem knownEntries?_bind_congr {next : List (Scalar × Value) → Except SettingsFault α}
    (hunknown : unknownFields? known entries' = unknownFields? known entries)
    (hnext : next entries' = next entries) :
    (knownEntries? part known (.mapping entries') >>= next) =
      (knownEntries? part known (.mapping entries) >>= next) := by
  simp only [knownEntries?, hunknown]
  split
  · exact hnext
  · rfl
  · rfl

theorem depth?_of_shuffled (h : Shuffled v w) : depth? w = depth? v := by
  cases h with
  | refl => rfl
  | mapping => rfl

theorem dotOptions?_of_shuffled (hv : v.Loaded) (h : Shuffled v w) :
    dotOptions? w = dotOptions? v := by
  cases h with
  | refl => rfl
  | mapping hperm =>
    obtain ⟨hdistinct, hshort, -⟩ := Value.loaded_mapping_iff.1 hv
    apply knownEntries?_bind_congr (unknownFields?_perm hshort (hperm.map _))
    simp only [fieldOr_perm hdistinct.oneValued hperm]

theorem ofValue?_of_reordered (hv : v.Loaded) (h : Reordered v w) : ofValue? w = ofValue? v := by
  cases h with
  | @mapping entries outer entries' houter hinner =>
    obtain ⟨hdistinct, hshort, hvalues⟩ := Value.loaded_mapping_iff.1 hv
    have hkeys : (entries.map Prod.fst).Perm (entries'.map Prod.fst) :=
      keys_of_sameEntry hinner ▸ houter.map _
    have hfield (name : String) :
        Option.Rel Shuffled (field? entries name) (field? entries' name) :=
      field?_perm hdistinct.oneValued houter ▸ field?_of_sameEntry hinner
    apply knownEntries?_bind_congr (unknownFields?_perm hshort hkeys)
    rw [fieldOr_congr (hfield _) fun _ _ _ => depth?_of_shuffled,
      fieldOr_congr (hfield _) fun _ _ hgraph => dotOptions?_of_shuffled (hvalues _ hgraph)]

/-! ### The main statement -/

theorem Given.of_standard {standard x : α} {Means : Value → α → Prop} {P : α → Prop}
    (h : Given entries name standard Means x) (hmeans : ∀ v, Means v x → P x)
    (hstandard : P standard) : P x := by
  obtain ⟨v, -, hx⟩ | ⟨-, rfl⟩ := h
  · exact hmeans v hx
  · exact hstandard

theorem one_le_maxDepth {config : Config} (h : IsConfig v config) : 1 ≤ config.maxDepth := by
  obtain ⟨-, rfl⟩ | ⟨entries, -, hset⟩ := h
  · decide
  · exact hset.maxDepth.of_standard (fun _ hdepth => hdepth.2) (by decide)

/-- Configurations are read from exactly the acceptable values, and they hold what the values say
and the standards elsewhere. So the depth is at least one, and the direction one of four; that it is
refused when the settings are put together cannot happen. All other values are rejected, and the
order of entries counts for nothing, not even for the fault. -/
theorem acceptance_exact (hv : v.Loaded) :
    (∀ config, ofValue? v = .ok config ↔ IsConfig v config) ∧
    ((∃ config, ofValue? v = .ok config) ↔ Acceptable v) ∧
    (∀ config, ofValue? v = .ok config →
      1 ≤ config.maxDepth ∧ config.render.rankdir.name ∈ ["TB", "LR", "BT", "RL"]) ∧
    (∀ name, ofValue? v ≠ .error (.refusedDirection name)) ∧
    (¬ Acceptable v → ∃ fault, ofValue? v = .error fault ∧
      ∀ label, LoadFault.ofSettings label fault = .rejected (.settings label fault)) ∧
    ∀ w, Reordered v w → ofValue? w = ofValue? v := by
  have hadmits := admits_ofValue? hv
  have haccepted : (∃ config, ofValue? v = .ok config) ↔ Acceptable v := by
    simp only [hadmits.eq_ok_iff, exists_isConfig_iff hv]
  refine ⟨hadmits.eq_ok_iff, haccepted, ?_, ?_, ?_, fun w => ofValue?_of_reordered hv⟩
  · intro config hconfig
    refine ⟨one_le_maxDepth ((hadmits.eq_ok_iff config).1 hconfig), ?_⟩
    cases config.render.rankdir <;> decide
  · intro name hrefused
    cases hadmits.rejects _ hrefused ""
  · intro hnot
    rw [← haccepted] at hnot
    cases houtcome : ofValue? v with
    | error fault => exact ⟨fault, rfl, hadmits.rejects fault houtcome⟩
    | ok config => exact absurd ⟨config, houtcome⟩ hnot

theorem acceptance_exact_of_swapped :
    let graph : List (Scalar × Value) := [(.ofString "rankdir", .scalar (.ofString "LR")),
      (.ofString "clusters", .scalar (.bool false))]
    let entries (graph : List (Scalar × Value)) : List (Scalar × Value) :=
      [(.ofString "max-depth", .scalar (.int 3)), (.ofString "graph", .mapping graph)]
    let v : Value := .mapping (entries graph)
    v.Loaded ∧ Acceptable v ∧
      ofValue? v = .ok ⟨3, { rankdir := .leftRight, clusters := false }⟩ ∧
      ofValue? (.mapping (entries graph.reverse).reverse) = ofValue? v := by
  intro graph entries v
  have hgraph : (Value.mapping graph).Loaded := by
    refine Value.loaded_mapping_iff.2 ⟨by unfold DistinctKeys; decide, ?_, ?_⟩
    · simp [ShortKeys, graph, Scalar.ofString]
    · simp [graph, Value.loaded_scalar]
  have hv : v.Loaded := by
    refine Value.loaded_mapping_iff.2 ⟨by unfold DistinctKeys; decide, ?_, ?_⟩
    · simp [ShortKeys, entries, Scalar.ofString]
    · simpa [entries, Value.loaded_scalar] using hgraph
  have hvalue : ofValue? v = .ok ⟨3, { rankdir := .leftRight, clusters := false }⟩ := by
    decide +kernel
  have hreordered : Reordered v (.mapping (entries graph.reverse).reverse) := by
    refine .mapping (List.reverse_perm _).symm ?_
    exact .cons ⟨rfl, .mapping (List.reverse_perm _).symm⟩ (.cons ⟨rfl, .refl _⟩ .nil)
  obtain ⟨-, haccepted, -, -, -, horder⟩ := acceptance_exact hv
  exact ⟨hv, haccepted.1 ⟨_, hvalue⟩, hvalue, horder _ hreordered⟩

end Config

end StreamTypes
