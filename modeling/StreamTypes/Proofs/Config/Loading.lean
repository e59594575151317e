import StreamTypes.Proofs.Config.Acceptance
import StreamTypes.Proofs.Text.Utf8

/-!
# Files that loading answers for

A loader that answers for the text of a file finds its value or that there is none. Then the file is
either loaded or rejected, with three exceptions: no file has a path with a NUL character, bytes
need not be a text, and a key of no meaning may be a number with too many digits to be shown. The
last one is the only fault of a value that is not answered for, and it is found in the outer mapping
first, then in the mapping of the graph, but not behind another fault.

## Main definitions

- `Config.Reports` — when a reader ends with the fault that is not answered for
- `Config.Unshown` — the values for which it does
- `Config.Answered` — the settings are loaded, or the file is rejected
- `Config.unified` — what a loader is given for the text of a file
- `Config.Loadable` — the contents of files that loading answers for

## Main statements

- `Config.Reports.bind` — readers behind one another
- `Config.reports_ofValue?` — the fault occurs for exactly those values
- `Config.answered_ofFile?_iff` — which files are loaded or rejected
-/

namespace StreamTypes

/-- A number with too many digits is not shown. -/
theorem Yaml.Scalar.display?_int_eq_none {n : Int} (h : ¬ n.natAbs < 10 ^ Text.numeralLimit) :
    (Scalar.int n).display? = none := by
  have hlength : Text.numeralLimit < (Nat.toDigits 10 n.natAbs).length := by
    rwa [← Nat.not_le, Nat.length_toDigits_le_iff (by decide) (by decide)]
  rw [display?, if_pos hlength]

namespace Config

open Yaml (Scalar Value OneValued ShortKeys DistinctKeys)

variable {α β : Type} {entries entries' : List (Scalar × Value)} {known : List String}
  {part : ConfigPart} {name : String} {v w : Value}

/-! ### Readers -/

/-- A reader ends with the fault that a file is not rejected for exactly if a condition holds. -/
structure Reports (result : Except SettingsFault α) (unshown : Prop) : Prop where
  unshown_iff : result = .error .unshownField ↔ unshown
  rejects : ∀ fault, result = .error fault → fault ≠ .unshownField → Rejects fault

theorem not_rejects_unshownField : ¬ Rejects .unshownField :=
  fun h => nomatch h ""

theorem reports_ok (x : α) : Reports (.ok x) False where
  unshown_iff := by simp
  rejects _ h := nomatch h

theorem reports_error {fault : SettingsFault} (h : Rejects fault) :
    Reports (.error fault : Except SettingsFault α) False where
  unshown_iff := by
    simp only [Except.error.injEq, iff_false]
    rintro rfl
    exact not_rejects_unshownField h
  rejects fault' hfault _ := Except.error.inj hfault ▸ h

theorem Admits.reports {result : Except SettingsFault α} {P : α → Prop} (h : Admits result P) :
    Reports result False where
  unshown_iff := ⟨fun hfault => not_rejects_unshownField (h.rejects _ hfault), False.elim⟩
  rejects fault hfault _ := h.rejects fault hfault

theorem Reports.congr {result : Except SettingsFault α} {p q : Prop} (h : Reports result p)
    (hpq : p ↔ q) : Reports result q where
  unshown_iff := h.unshown_iff.trans hpq
  rejects := h.rejects

/-- Behind a reader that yields something, it is the next one that counts. -/
theorem Reports.bind {result : Except SettingsFault α} {p : Prop}
    {next : α → Except SettingsFault β} {q : α → Prop} (h : Reports result p)
    (hnext : ∀ x, result = .ok x → Reports (next x) (q x)) :
    Reports (result >>= next) (p ∨ ∃ x, result = .ok x ∧ q x) := by
  cases result with
  | error fault =>
    have hp : fault = .unshownField ↔ p := by simpa using h.unshown_iff
    change Reports (.error fault) _
    refine ⟨by simp [hp], fun fault' h' => h.rejects fault' ?_⟩
    rw [Except.error.inj h']
  | ok x =>
    have hp : ¬ p := fun hp => nomatch h.unshown_iff.2 hp
    refine ⟨(hnext x rfl).unshown_iff.trans ?_, (hnext x rfl).rejects⟩
    simp [hp]

/-- A reader that is always answered for, in front of another one. -/
theorem Admits.bind_reports {result : Except SettingsFault α} {P : α → Prop}
    {next : α → Except SettingsFault β} {q : Prop} (h : Admits result P)
    (hnext : ∀ x, Reports (next x) q) : Reports (result >>= next) ((∃ x, P x) ∧ q) := by
  refine (h.reports.bind (q := fun _ => q) fun x _ => hnext x).congr ?_
  simp [h.eq_ok_iff]

theorem reports_fieldOr {standard : α} {read : Value → Except SettingsFault α} {q : Value → Prop}
    (h : OneValued entries)
    (hread : ∀ v, (Scalar.ofString name, v) ∈ entries → Reports (read v) (q v)) :
    Reports (fieldOr entries name standard read)
      (∃ v, (Scalar.ofString name, v) ∈ entries ∧ q v) := by
  rw [fieldOr]
  cases hfield : field? entries name with
  | none =>
    have habsent := field?_eq_none_iff.1 hfield
    exact (reports_ok standard).congr (by simp [habsent])
  | some v =>
    have hv := mem_of_field?_eq_some hfield
    refine (hread v hv).congr ⟨fun hq => ⟨v, hv, hq⟩, ?_⟩
    rintro ⟨w, hw, hq⟩
    exact h name v w hv hw ▸ hq

/-! ### Mappings -/

theorem mapM_display?_eq_none {entry : Scalar × Value} (hentry : entry ∈ entries)
    (h : entry.1.display? = none) : (entries.mapM fun entry => entry.1.display?) = none := by
  induction hentry with
  | head => simp [h]
  | tail _ _ ih => simp [ih]

theorem unknownFields?_eq_none_iff :
    unknownFields? known entries = none ↔ ¬ ShortKeys entries := by
  constructor
  · intro hnone hshort
    rw [unknownFields?_eq hshort] at hnone
    cases hnone
  · intro hlong
    simp only [ShortKeys, not_forall] at hlong
    obtain ⟨entry, hentry, n, hkey, hn⟩ := hlong
    -- No known name is a number, so the key is among the unknown ones.
    have hunknown : entry ∈ entries.filter fun entry =>
        !known.any fun name => entry.1.isText name := by
      simp [hentry, hkey, Scalar.isText]
    have hnone : entry.1.display? = none := hkey ▸ Scalar.display?_int_eq_none hn
    rw [unknownFields?, mapM_display?_eq_none hunknown hnone, Option.map_none]

theorem KeysAmong.shortKeys (h : KeysAmong known entries) : ShortKeys entries := by
  intro entry hentry n hkey
  obtain ⟨name, -, hname⟩ := h entry hentry
  rw [hname] at hkey
  cases hkey

/-- The mapping of a part has a key that cannot be shown. -/
def HasLongKey (v : Value) : Prop :=
  ∃ entries, v = .mapping entries ∧ ¬ ShortKeys entries

theorem reports_knownEntries? : Reports (knownEntries? part known v) (HasLongKey v) := by
  cases v with
  | mapping entries =>
    by_cases hshort : ShortKeys entries
    · have hlong : False ↔ HasLongKey (.mapping entries) := by simp [HasLongKey, hshort]
      by_cases hknown : KeysAmong known entries
      · rw [knownEntries?_of_keysAmong hshort hknown]
        exact (reports_ok entries).congr hlong
      · obtain ⟨names, herror⟩ := knownEntries?_of_not_keysAmong part hshort hknown
        rw [herror]
        exact (reports_error fun _ => rfl).congr hlong
    · have herror : knownEntries? part known (.mapping entries) = .error .unshownField := by
        rw [knownEntries?, unknownFields?_eq_none_iff.2 hshort]
      rw [herror]
      refine ⟨by simp [HasLongKey, hshort], fun fault hfault hne => absurd ?_ hne⟩
      exact (Except.error.inj hfault).symm
  | _ => exact (reports_error fun _ => rfl).congr (by simp [HasLongKey])

theorem isMapping_of_knownEntries? (h : knownEntries? part known v = .ok entries) :
    IsMapping known v entries := by
  cases v with
  | mapping fields =>
    by_cases hshort : ShortKeys fields
    · by_cases hknown : KeysAmong known fields
      · rw [knownEntries?_of_keysAmong hshort hknown] at h
        cases h
        exact ⟨rfl, hknown⟩
      · obtain ⟨names, herror⟩ := knownEntries?_of_not_keysAmong part hshort hknown
        rw [herror] at h
        cases h
    · rw [knownEntries?, unknownFields?_eq_none_iff.2 hshort] at h
      cases h
  | _ => cases h

/-- The values for which reading ends with the fault that is not answered for: a mapping with a key
that cannot be shown, or one without further faults in which the graph is such a mapping. -/
inductive Unshown : Value → Prop
  | whole {v : Value} (h : HasLongKey v) : Unshown v
  | graph {entries : List (Scalar × Value)} {graph : Value}
    (keys : KeysAmong ["max-depth", "graph"] entries)
    (maxDepth : IfPresent entries "max-depth" fun v => ∃ n, IsDepth v n)
    (hgraph : (Scalar.ofString "graph", graph) ∈ entries) (h : HasLongKey graph) :
    Unshown (.mapping entries)

theorem IsMapping.values (h : IsMapping known v entries) (hv : v.Throughout DistinctKeys) :
    OneValued entries ∧ ∀ entry ∈ entries, entry.2.Throughout DistinctKeys := by
  obtain ⟨rfl, -⟩ := h
  obtain ⟨hdistinct, hvalues⟩ := Value.throughout_mapping_iff.1 hv
  exact ⟨hdistinct.oneValued, hvalues⟩

theorem reports_dotOptions? (hv : v.Throughout DistinctKeys) :
    Reports (dotOptions? v) (HasLongKey v) := by
  unfold dotOptions?
  refine (reports_knownEntries?.bind (q := fun _ => False) fun entries hentries => ?_).congr
    (by simp)
  obtain ⟨hone, -⟩ := (isMapping_of_knownEntries? hentries).values hv
  -- Behind the keys there is nothing that is not answered for.
  apply Admits.reports
  apply (admits_fieldOr hone fun w _ => admits_text? w).bind
  intro graphName _
  apply (admits_fieldOr hone fun w _ => admits_text? w).bind
  intro rankdir _
  apply (admits_fieldOr hone fun w _ => admits_text? w).bind
  intro fontname _
  apply (admits_fieldOr hone fun w _ => admits_clusters? w).bind
  intro clusters _
  exact admits_direction graphName rankdir fontname clusters

theorem reports_ofValue? (hv : v.Throughout DistinctKeys) : Reports (ofValue? v) (Unshown v) := by
  by_cases hnull : v = .scalar .null
  · subst hnull
    refine (reports_ok _).congr (iff_of_false not_false ?_)
    rintro (⟨_, h, -⟩ | _)
    cases h
  · unfold ofValue?
    split
    · exact absurd rfl hnull
    refine (reports_knownEntries?.bind (q := fun entries =>
      IfPresent entries "max-depth" (fun v => ∃ n, IsDepth v n) ∧
        ∃ graph, (Scalar.ofString "graph", graph) ∈ entries ∧ HasLongKey graph)
      fun entries hentries => ?_).congr ?_
    · obtain ⟨hone, hvalues⟩ := (isMapping_of_knownEntries? hentries).values hv
      rw [← exists_given_iff hone]
      apply (admits_fieldOr hone fun w _ => admits_depth? w).bind_reports
      intro maxDepth
      refine ((reports_fieldOr hone fun w hw => reports_dotOptions? (hvalues _ hw)).bind
        (q := fun _ => False) fun render _ => reports_ok _).congr (by simp)
    · constructor
      · rintro (h | ⟨entries, hentries, hdepth, graph, hgraph, h⟩)
        · exact .whole h
        · obtain ⟨rfl, hkeys⟩ := isMapping_of_knownEntries? hentries
          exact .graph hkeys hdepth hgraph h
      · rintro (h | ⟨hkeys, hdepth, hgraph, h⟩)
        · exact .inl h
        · exact .inr ⟨_, knownEntries?_of_keysAmong hkeys.shortKeys hkeys, hdepth, _, hgraph, h⟩

/-! ### Files -/

/-- The settings are loaded, or the file is rejected. -/
def Answered (loaded : Except LoadFault Config) : Prop :=
  (∃ config, loaded = .ok config) ∨ ∃ error, loaded = .error (.rejected error)

/-- What a loader is given for the text of a file, whatever the lines of the file end with. -/
def unified (text : String) : String :=
  String.ofList (Text.unifiedLines text.toList)

section

variable {load : Yaml.Loader} {label text : String}

/-- Loading answers for what a file system says about a path, except that a NUL character is in it.
It answers for the bytes of texts that have a value in which the keys can be shown, or none. -/
def Loadable (load : Yaml.Loader) : Except FileFault (List UInt8) → Prop
  | .error fault => fault ≠ .nulInPath
  | .ok bytes => ∃ text, bytes = Text.Utf8.encode text ∧
    ∀ v, load (unified text) = .ok v → ¬ Unshown v

theorem answered_ok (config : Config) : Answered (.ok config) :=
  .inl ⟨config, rfl⟩

theorem answered_error_iff {fault : LoadFault} :
    Answered (.error fault) ↔ ∃ error, fault = .rejected error := by
  simp [Answered]

theorem ofText?_of_unshown (hvalue : load text = .ok v) (hv : v.Throughout DistinctKeys)
    (hunshown : Unshown v) : ofText? load label text = .error .unshownField := by
  simp only [ofText?, hvalue, (reports_ofValue? hv).unshown_iff.2 hunshown, LoadFault.ofSettings]

theorem answered_of_shown (hvalue : load text = .ok v) (hv : v.Throughout DistinctKeys)
    (hshown : ¬ Unshown v) : Answered (ofText? load label text) := by
  have hreports := reports_ofValue? hv
  simp only [ofText?, hvalue]
  cases houtcome : ofValue? v with
  | ok config => exact answered_ok config
  | error fault =>
    have hfault : fault ≠ .unshownField := by
      rintro rfl
      exact hshown (hreports.unshown_iff.1 houtcome)
    exact answered_error_iff.2 ⟨_, hreports.rejects fault houtcome hfault label⟩

theorem answered_ofText?_iff (hload : load.Answers text) :
    Answered (ofText? load label text) ↔ ∀ v, load text = .ok v → ¬ Unshown v := by
  cases hvalue : load text with
  | error refusal =>
    cases refusal with
    | fault fault => exact absurd hvalue (hload.reasoned fault)
    | notYaml reason =>
      have herror : ofText? load label text = .error (.rejected (.notYaml label reason)) := by
        simp only [ofText?, hvalue]
      rw [herror]
      exact iff_of_true (answered_error_iff.2 ⟨_, rfl⟩) nofun
  | ok v =>
    have hv := hload.distinct v hvalue
    constructor
    · rintro hanswered w hw hunshown
      cases hw
      rw [ofText?_of_unshown hvalue hv hunshown, answered_error_iff] at hanswered
      obtain ⟨error, herror⟩ := hanswered
      cases herror
    · exact fun hshown => answered_of_shown hvalue hv (hshown v rfl)

/-- The files that are loaded or rejected, whatever they hold. -/
theorem answered_ofFile?_iff {path : Path} {contents : Except FileFault (List UInt8)}
    (hload : ∀ text, contents = .ok (Text.Utf8.encode text) → load.Answers (unified text)) :
    Answered (ofFile? load path contents) ↔ Loadable load contents := by
  cases contents with
  | error fault => cases fault <;> simp [ofFile?, answered_error_iff, Loadable]
  | ok bytes =>
    rw [ofFile?, Loadable]
    cases hdecode : Text.Utf8.decode? bytes with
    | error fault =>
      refine iff_of_false (by simp [answered_error_iff]) ?_
      rintro ⟨text, htext, -⟩
      rw [Text.Utf8.decode?_eq_ok_iff.2 htext] at hdecode
      cases hdecode
    | ok text =>
      have htext := Text.Utf8.decode?_eq_ok_iff.1 hdecode
      have hanswered : Answered (ofText? load path.text (unified text)) ↔
          ∀ v, load (unified text) = .ok v → ¬ Unshown v :=
        answered_ofText?_iff (hload text (congrArg Except.ok htext))
      refine hanswered.trans ⟨fun h => ⟨text, htext, h⟩, ?_⟩
      rintro ⟨text', htext', h⟩
      rw [Text.Utf8.decode?_eq_ok_iff.2 htext'] at hdecode
      cases hdecode
      exact h

end

end Config

end StreamTypes
