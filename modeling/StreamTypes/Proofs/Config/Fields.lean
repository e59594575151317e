import Mathlib.Algebra.Group.Nat.Defs
import Mathlib.Data.List.Forall2
import StreamTypes.Config.Reader
import StreamTypes.Proofs.Text.Order
import StreamTypes.Proofs.Yaml.Values

/-!
# The fields of mappings

A loader makes mappings of which no two keys are the same. Then a field is looked up without regard
to the order of the entries, and a key that has no meaning is found wherever it stands. Keys may
have any type; they can be shown unless they are numbers with too many digits.

## Main definitions

- `Yaml.Value.Loaded` — values as a loader makes them
- `Yaml.OneValued` — each text is the key of one value at most
- `Config.KeysAmong` — all keys are known

## Main statements

- `Config.field?_eq_some_iff` — which value a field has
- `Config.field?_perm` — a field is found wherever it stands
- `Config.unknownFields?_perm` — unknown keys are reported in the same way wherever they stand
- `Config.knownEntries?_of_keysAmong`, `Config.knownEntries?_of_not_keysAmong` — when the keys of a
  mapping are accepted
-/

namespace StreamTypes

namespace Yaml

variable {entries entries' : List (Scalar × Value)} {v w : Value}

/-! ### Loaded values -/

/-- A text. -/
def Scalar.ofString (text : String) : Scalar :=
  .str (.ofString text)

theorem Scalar.isText_iff {text : String} {key : Scalar} :
    key.isText text = true ↔ key = ofString text := by
  cases key <;> simp [isText, ofString]

theorem Scalar.sameKey_ofString (text : String) :
    (ofString text).sameKey (ofString text) = true := by
  simp [sameKey, asNumber, ofString]

/-- All keys that are whole numbers have so few digits that they are shown. -/
def ShortKeys (entries : List (Scalar × Value)) : Prop :=
  ∀ entry ∈ entries, ∀ n, entry.1 = .int n → n.natAbs < 10 ^ Text.numeralLimit

/-- A value as a loader makes it, in which the keys that are whole numbers are not too long. -/
structure Value.Loaded (v : Value) : Prop where
  distinct : v.Throughout DistinctKeys
  short : v.Throughout ShortKeys

theorem Value.loaded_scalar (value : Scalar) : (Value.scalar value).Loaded :=
  ⟨.scalar value, .scalar value⟩

theorem Value.loaded_mapping_iff : (Value.mapping entries).Loaded ↔
    DistinctKeys entries ∧ ShortKeys entries ∧ ∀ entry ∈ entries, entry.2.Loaded := by
  constructor
  · rintro ⟨hdistinct, hshort⟩
    rw [throughout_mapping_iff] at hdistinct hshort
    exact ⟨hdistinct.1, hshort.1, fun e he => ⟨hdistinct.2 e he, hshort.2 e he⟩⟩
  · rintro ⟨hdistinct, hshort, hvalues⟩
    exact ⟨.mapping hdistinct fun e he => (hvalues e he).distinct,
      .mapping hshort fun e he => (hvalues e he).short⟩

/-- Each text is the key of one value at most. -/
def OneValued (entries : List (Scalar × Value)) : Prop :=
  ∀ text v w, (Scalar.ofString text, v) ∈ entries → (Scalar.ofString text, w) ∈ entries → v = w

theorem DistinctKeys.oneValued (h : DistinctKeys entries) : OneValued entries := by
  intro text v w hv hw
  -- Not every key is the same as itself, but a text is.
  have hself := Scalar.sameKey_ofString text
  induction h with
  | nil => simp at hv
  | cons hfirst _ ih =>
    obtain rfl | hv' := List.mem_cons.1 hv
    · obtain hw' | hw' := List.mem_cons.1 hw
      · exact (Prod.mk.inj hw').2.symm
      · simp [hfirst _ hw'] at hself
    · obtain rfl | hw' := List.mem_cons.1 hw
      · simp [hfirst _ hv'] at hself
      · exact ih hv' hw'

theorem OneValued.perm (h : OneValued entries) (hperm : entries.Perm entries') :
    OneValued entries' := by
  intro text v w hv hw
  exact h text v w (hperm.mem_iff.2 hv) (hperm.mem_iff.2 hw)

/-! ### Keys that are shown -/

/-- A key as it is shown. -/
def Scalar.shown (key : Scalar) : WideText :=
  key.display?.getD []

theorem Scalar.display?_int {n : Int} (h : n.natAbs < 10 ^ Text.numeralLimit) :
    (Scalar.int n).display? = some (.ofString (toString n)) := by
  have hlength : (Nat.toDigits 10 n.natAbs).length ≤ Text.numeralLimit :=
    (Nat.length_toDigits_le_iff (by decide) (by decide)).2 h
  rw [display?, if_neg (Nat.not_lt.2 hlength)]

theorem ShortKeys.display?_eq (h : ShortKeys entries) {entry : Scalar × Value}
    (hentry : entry ∈ entries) : entry.1.display? = some entry.1.shown := by
  have hshort := h entry hentry
  rw [Scalar.shown]
  cases hkey : entry.1 with
  | int n => rw [Scalar.display?_int (hshort n hkey), Option.getD_some]
  | _ => rw [Scalar.display?, Option.getD_some]

end Yaml

namespace Config

open Yaml (Scalar Value OneValued ShortKeys)

variable {entries entries' : List (Scalar × Value)} {known : List String} {part : ConfigPart}
  {name : String} {v : Value}

/-! ### Looking up fields -/

theorem mem_of_field?_eq_some (h : field? entries name = some v) :
    (Scalar.ofString name, v) ∈ entries := by
  rw [field?, Option.map_eq_some_iff] at h
  obtain ⟨entry, hfind, rfl⟩ := h
  have htext := List.find?_some hfind
  have hkey : entry.1 = Scalar.ofString name := Scalar.isText_iff.1 htext
  rw [← hkey]
  exact List.mem_of_find?_eq_some hfind

theorem field?_eq_none_iff :
    field? entries name = none ↔ ∀ v, (Scalar.ofString name, v) ∉ entries := by
  simp only [field?, Option.map_eq_none_iff, List.find?_eq_none, Scalar.isText_iff]
  exact ⟨fun h v hv => h _ hv rfl, fun h entry hentry hkey => h entry.2 (hkey ▸ hentry)⟩

theorem field?_eq_some_iff (h : OneValued entries) :
    field? entries name = some v ↔ (Scalar.ofString name, v) ∈ entries := by
  refine ⟨mem_of_field?_eq_some, fun hv => ?_⟩
  cases hfield : field? entries name with
  | none => exact absurd hv (field?_eq_none_iff.1 hfield v)
  | some w => rw [h name w v (mem_of_field?_eq_some hfield) hv]

theorem field?_perm (h : OneValued entries) (hperm : entries.Perm entries') :
    field? entries' name = field? entries name := by
  ext v
  rw [field?_eq_some_iff h, field?_eq_some_iff (h.perm hperm), hperm.mem_iff]

/-! ### Unknown fields -/

/-- All keys are among some names. -/
def KeysAmong (known : List String) (entries : List (Scalar × Value)) : Prop :=
  ∀ entry ∈ entries, ∃ name ∈ known, entry.1 = Scalar.ofString name

/-- The keys that are not among some names. -/
def unknownKeys (known : List String) (keys : List Scalar) : List Scalar :=
  keys.filter fun key => !known.any fun name => key.isText name

theorem unknownKeys_eq_nil_iff :
    unknownKeys known (entries.map Prod.fst) = [] ↔ KeysAmong known entries := by
  simp [unknownKeys, KeysAmong, Scalar.isText_iff]

theorem mapM_display? (h : ShortKeys entries) :
    (entries.mapM fun entry => entry.1.display?) =
      some (entries.map fun entry => entry.1.shown) := by
  induction entries with
  | nil => rfl
  | cons entry entries ih =>
    have hrest := ih fun e he => h e (List.mem_cons_of_mem _ he)
    simp [h.display?_eq List.mem_cons_self, hrest]

theorem unknownFields?_eq (h : ShortKeys entries) :
    unknownFields? known entries = some
      (((unknownKeys known (entries.map Prod.fst)).map Scalar.shown).mergeSort
        WideText.precedes) := by
  have hunknown : ShortKeys (entries.filter fun entry =>
      !known.any fun name => entry.1.isText name) :=
    fun entry hentry => h entry (List.mem_of_mem_filter hentry)
  simp only [unknownFields?, mapM_display? hunknown, Option.map_some, unknownKeys,
    List.filter_map, List.map_map]
  rfl

/-- It is the keys that count, and not their order. -/
theorem unknownFields?_perm (h : ShortKeys entries)
    (hperm : (entries.map Prod.fst).Perm (entries'.map Prod.fst)) :
    unknownFields? known entries' = unknownFields? known entries := by
  have h' : ShortKeys entries' := by
    intro entry hentry
    obtain ⟨entry', hmem, hkey⟩ :=
      List.mem_map.1 (hperm.mem_iff.2 (List.mem_map_of_mem hentry))
    exact hkey ▸ h entry' hmem
  rw [unknownFields?_eq h, unknownFields?_eq h']
  exact congrArg some (WideText.mergeSort_eq_of_perm ((hperm.symm.filter _).map _))

/-- Keys of different types are put in one order. -/
example : unknownFields? ["graph"] [(.ofString "x", .scalar .null), (.bool true, .scalar .null)] =
    some [.ofString "True", .ofString "x"] := by
  cbv

theorem knownEntries?_of_keysAmong (h : ShortKeys entries) (hknown : KeysAmong known entries) :
    knownEntries? part known (.mapping entries) = .ok entries := by
  simp [knownEntries?, unknownFields?_eq h, unknownKeys_eq_nil_iff.2 hknown]

theorem knownEntries?_of_not_keysAmong (part : ConfigPart) (h : ShortKeys entries)
    (hunknown : ¬ KeysAmong known entries) : ∃ names,
    knownEntries? part known (.mapping entries) = .error (.unknownFields part names) := by
  rw [← unknownKeys_eq_nil_iff] at hunknown
  cases hsorted : ((unknownKeys known (entries.map Prod.fst)).map Scalar.shown).mergeSort
      WideText.precedes with
  | nil =>
    have hlength := congrArg List.length hsorted
    simp [hunknown] at hlength
  | cons text texts =>
    exact ⟨text :: texts, by simp [knownEntries?, unknownFields?_eq h, hsorted]⟩

end Config

end StreamTypes
