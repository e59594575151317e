import StreamTypes.Proofs.Yaml.Values
import StreamTypes.Yaml.Loader

/-!
# The keys of loaded mappings

The contents of a document are made in many steps, in an order that is hard to foresee: entries are
merged from other mappings, and a mapping may hold itself. But each mapping gets its entries at
once, and they are put together one by one, where an entry with a key that is there already replaces
its value. So in the end no mapping has two keys that are the same.

## Main definitions

- `Maker.Keeps` — a step leaves contents tidy

## Main statements

- `DistinctKeys.putEntry` — one more entry
- `Maker.keeps_reachEntries` — the entries of a mapping
- `Value.distinctKeys_of_ofText?` — the value of a text
- `answers_load` — what may be relied on of the loader for configurations
-/

namespace StreamTypes.Yaml

/-! ### Distinct keys -/

theorem mem_putEntry {α : Type} {entries : List (Scalar × α)} {key : Scalar} {value : α}
    {x : Scalar × α} (h : x ∈ putEntry entries key value) :
    (∃ y ∈ entries, y.1 = x.1) ∨ x.1 = key := by
  induction entries with
  | nil =>
    rw [putEntry, List.mem_singleton] at h
    exact .inr (congrArg Prod.fst h)
  | cons y entries ih =>
    rw [putEntry] at h
    split at h
    · obtain rfl | h := List.mem_cons.1 h
      · exact .inl ⟨y, List.mem_cons_self, rfl⟩
      · exact .inl ⟨x, List.mem_cons_of_mem _ h, rfl⟩
    · obtain rfl | h := List.mem_cons.1 h
      · exact .inl ⟨y, List.mem_cons_self, rfl⟩
      · obtain ⟨z, hz, hkey⟩ | hkey := ih h
        · exact .inl ⟨z, List.mem_cons_of_mem _ hz, hkey⟩
        · exact .inr hkey

theorem DistinctKeys.putEntry {α : Type} {entries : List (Scalar × α)} (h : DistinctKeys entries)
    (key : Scalar) (value : α) : DistinctKeys (putEntry entries key value) := by
  induction h with
  | nil => exact List.pairwise_singleton _ _
  | @cons x entries hfirst hrest ih =>
    rw [Yaml.putEntry]
    split
    case isTrue => exact .cons hfirst hrest
    case isFalse hne =>
      -- Behind the first entry there are old keys and the new one, which differs from it.
      refine .cons ?_ ih
      intro z hz
      obtain ⟨y, hy, hkey⟩ | hkey := mem_putEntry hz
      · exact hkey ▸ hfirst y hy
      · rw [hkey]
        exact Bool.eq_false_iff.2 hne

/-! ### Steps -/

/-- A content that has no key twice if it is that of a mapping. -/
inductive Content.Tidy : Content → Prop
  | scalar (value : Scalar) : Tidy (.scalar value)
  | sequence (items : List Nat) : Tidy (.sequence items)
  | mapping {entries : List (Scalar × Nat)} (h : DistinctKeys entries) : Tidy (.mapping entries)
  | set (members : List Scalar) : Tidy (.set members)
  | pairs (entries : List (Nat × Nat)) : Tidy (.pairs entries)

/-- All contents so far are tidy. -/
def Draft.Tidy (s : Draft) : Prop :=
  ∀ number content, s.content? number = some content → content.Tidy

namespace Maker

variable {α β : Type} {P : α → Prop} {R : β → Prop}

/-- Steps from tidy contents lead to tidy contents, and what they yield has a property. -/
def Keeps (m : Maker α) (P : α → Prop) : Prop :=
  ∀ s a s', s.Tidy → m.run s = .ok (a, s') → s'.Tidy ∧ P a

theorem keeps_pure {a : α} (ha : P a) : Keeps (pure a) P := by
  intro s b s' hs hrun
  cases hrun
  exact ⟨hs, ha⟩

theorem keeps_throw (failure : Failure) : Keeps (throw failure : Maker α) P :=
  fun _ _ _ _ hrun => nomatch hrun

theorem Keeps.bind {m : Maker α} {next : α → Maker β} (h : Keeps m P)
    (hnext : ∀ a, P a → Keeps (next a) R) : Keeps (m >>= next) R := by
  intro s b s' hs hrun
  rw [StateT.run_bind] at hrun
  cases hm : m.run s with
  | error failure =>
    rw [hm] at hrun
    cases hrun
  | ok outcome =>
    rw [hm] at hrun
    obtain ⟨htidy, ha⟩ := h s outcome.1 outcome.2 hs hm
    exact hnext outcome.1 ha outcome.2 b s' htidy hrun

theorem Keeps.map {m : Maker α} (h : Keeps m P) (f : α → β) : Keeps (f <$> m) fun _ => True := by
  rw [map_eq_pure_bind]
  exact h.bind fun _ _ => keeps_pure trivial

theorem keeps_lift (result : Except Failure α) :
    Keeps (liftM result : Maker α) fun _ => True := by
  intro s a s' hs hrun
  cases result with
  | error failure => cases hrun
  | ok a =>
    cases hrun
    exact ⟨hs, trivial⟩

theorem keeps_get : Keeps get Draft.Tidy := by
  intro s a s' hs hrun
  cases hrun
  exact ⟨hs, hs⟩

theorem keeps_modify {f : Draft → Draft} (h : ∀ s, s.Tidy → (f s).Tidy) :
    Keeps (modify f) fun _ => True := by
  intro s a s' hs hrun
  cases hrun
  exact ⟨h s hs, trivial⟩

theorem keeps_forM {l : List α} {f : α → Maker PUnit} (h : ∀ a, Keeps (f a) fun _ => True) :
    Keeps (l.forM f) fun _ => True := by
  induction l with
  | nil => exact keeps_pure trivial
  | cons a l ih =>
    show Keeps (f a >>= fun _ => l.forM f) _
    exact (h a).bind fun _ _ => ih

theorem keeps_mapM {l : List α} {f : α → Maker β} (h : ∀ a, Keeps (f a) fun _ => True) :
    Keeps (l.mapM f) fun _ => True := by
  induction l with
  | nil => exact keeps_pure trivial
  | cons a l ih =>
    rw [List.mapM_cons]
    exact (h a).bind fun _ _ => ih.bind fun _ _ => keeps_pure trivial

/-! ### Making contents -/

theorem keeps_fail : Keeps (fail : Maker α) P :=
  keeps_throw .malformed

theorem keeps_put {content : Content} (h : content.Tidy) (number : Nat) :
    Keeps (put number content) fun _ => True := by
  refine keeps_modify fun s hs other content' hcontent => ?_
  -- A number beyond the last node changes nothing.
  simp only [Draft.content?, Array.getD_eq_getD_getElem?, Array.getElem?_setIfInBounds] at hcontent
  split at hcontent
  · split at hcontent
    · cases hcontent
      exact h
    · cases hcontent
  · exact hs other content' (by simpa [Draft.content?] using hcontent)

theorem keeps_announce {content : Content} (h : content.Tidy) (number : Nat) :
    Keeps (announce number content) fun _ => True :=
  (keeps_put h number).bind fun _ _ => keeps_modify fun _ hs => hs

theorem keeps_reach (number : Nat) : Keeps (reach number) fun _ => True := by
  refine keeps_get.bind fun s hs => ?_
  split
  · split
    · exact keeps_announce (.sequence _) number
    · exact keeps_announce (.mapping .nil) number
    · exact keeps_announce (.set _) number
    · exact keeps_announce (.pairs _) number
    · exact keeps_announce (.pairs _) number
    all_goals first
      | exact keeps_fail
      | exact (keeps_lift _).bind fun _ _ => keeps_put (.scalar _) number
  · exact keeps_pure trivial

theorem keeps_entriesOf (number : Nat) : Keeps (entriesOf number) fun _ => True := by
  refine keeps_get.bind fun s hs => ?_
  split
  · exact keeps_pure trivial
  · exact keeps_fail

theorem keeps_setEntries (number : Nat) (entries : List (Nat × Nat)) :
    Keeps (setEntries number entries) fun _ => True :=
  keeps_modify fun _ hs => hs

theorem keeps_retag (number : Nat) : Keeps (retag number) fun _ => True := by
  refine keeps_modify fun s hs => ?_
  split <;> exact hs

theorem keeps_flattenWith {merged : Nat → Maker (List (Nat × Nat))}
    (h : ∀ number, Keeps (merged number) fun _ => True) (number : Nat) :
    Keeps (flattenWith merged number) fun _ => True := by
  refine (keeps_entriesOf number).bind fun entries _ => ?_
  refine (keeps_forM fun entry : Nat × Nat => keeps_retag entry.1).bind fun _ _ => ?_
  refine (h number).bind fun front _ => ?_
  refine (keeps_entriesOf number).bind fun _ _ => ?_
  exact (keeps_setEntries number _).bind fun _ _ => keeps_pure trivial

theorem keeps_merged : (fuel number : Nat) → Keeps (merged fuel number) fun _ => True
  | 0, _ => keeps_pure trivial
  | fuel + 1, number => by
    have hflatten := keeps_flattenWith (keeps_merged fuel)
    refine (keeps_entriesOf number).bind fun entries _ => ?_
    refine keeps_get.bind fun s hs => ?_
    split
    · exact keeps_pure trivial
    · refine (keeps_setEntries number _).bind fun _ _ => ?_
      have hrest (front : List (Nat × Nat)) :
          Keeps (do return front ++ (← merged fuel number)) fun _ => True :=
        (keeps_merged fuel number).bind fun _ _ => keeps_pure trivial
      split
      · exact (hflatten _).bind fun front _ => hrest front
      · exact ((keeps_mapM hflatten).map _).bind fun front _ => hrest front
      · exact keeps_fail.bind fun front (_ : True) => hrest front

theorem keeps_allEntries (number : Nat) : Keeps (allEntries number) fun _ => True :=
  keeps_get.bind fun _ _ => keeps_flattenWith (keeps_merged _) number

/-- Entries with distinct keys stay so when more of them are made. -/
theorem keeps_reachEntries (entries : List (Nat × Nat)) : {made : List (Scalar × Nat)} →
    DistinctKeys made → Keeps (reachEntries made entries) DistinctKeys := by
  induction entries with
  | nil => exact fun h => keeps_pure h
  | cons entry entries ih =>
    intro made h
    refine (keeps_reach entry.1).bind fun _ _ => keeps_get.bind fun s hs => ?_
    split
    · exact (keeps_reach entry.2).bind fun _ _ => ih (h.putEntry _ _)
    · exact keeps_fail

theorem keeps_reachPair (number : Nat) : Keeps (reachPair number) fun _ => True := by
  refine (keeps_entriesOf number).bind fun entries _ => ?_
  split
  · exact (keeps_reach _).bind fun _ _ => (keeps_reach _).bind fun _ _ => keeps_pure trivial
  · exact keeps_fail

theorem keeps_fill (number : Nat) : Keeps (fill number) fun _ => True := by
  refine keeps_get.bind fun s hs => ?_
  dsimp only
  split
  · exact (keeps_forM keeps_reach).bind fun _ _ => keeps_put (.sequence _) number
  · exact (keeps_allEntries number).bind fun entries _ =>
      (keeps_reachEntries entries .nil).bind fun made h => keeps_put (.mapping h) number
  · exact (keeps_allEntries number).bind fun entries _ =>
      (keeps_reachEntries entries .nil).bind fun made h => keeps_put (.set _) number
  · exact (keeps_mapM keeps_reachPair).bind fun _ _ => keeps_put (.pairs _) number
  · exact (keeps_mapM keeps_reachPair).bind fun _ _ => keeps_put (.pairs _) number
  · exact keeps_fail

theorem keeps_fillAll : (fuel : Nat) → Keeps (fillAll fuel) fun _ => True
  | 0 => keeps_pure trivial
  | fuel + 1 => by
    refine keeps_get.bind fun s hs => ?_
    dsimp only
    split
    · refine (keeps_modify ?_).bind fun _ _ => ?_
      · exact fun _ hs => hs
      · exact (keeps_forM keeps_fill).bind fun _ _ => keeps_fillAll fuel
    · exact keeps_pure trivial

end Maker

/-! ### Values -/

theorem Contents.content_tidy {c : Contents}
    (h : ∀ number content, c.table.getD number none = some content → content.Tidy)
    (number : Nat) : (c.content number).Tidy := by
  rw [content]
  cases hcontent : c.table.getD number none with
  | none => exact .scalar _
  | some content => exact h number content hcontent

theorem Contents.value_distinctKeys {c : Contents} (h : ∀ number, (c.content number).Tidy)
    (levels number : Nat) : (c.value levels number).Throughout DistinctKeys := by
  induction levels generalizing number with
  | zero =>
    rw [value]
    split
    · exact .scalar _
    · exact .sequence (by simp)
    · exact .sequence (by simp)
    · exact .mapping .nil (by simp)
    · exact .set _
  | succ levels ih =>
    have hcontent := h number
    rw [value]
    dsimp only
    split
    case h_1 => exact .scalar _
    case h_2 items _ =>
      refine .sequence fun item hitem => ?_
      obtain ⟨k, -, rfl⟩ := List.mem_map.1 hitem
      exact ih k
    case h_3 entries _ =>
      refine .sequence fun item hitem => ?_
      obtain ⟨⟨k, v⟩, -, rfl⟩ := List.mem_map.1 hitem
      exact .sequence (by simp [ih])
    case h_4 entries hentries =>
      rw [hentries] at hcontent
      cases hcontent with
      | mapping hdistinct =>
        refine .mapping (List.pairwise_map.2 hdistinct) fun entry hentry => ?_
        obtain ⟨⟨key, number⟩, -, rfl⟩ := List.mem_map.1 hentry
        exact ih number
    case h_5 => exact .set _

theorem tidy_start (nodes : Array Node) (size merges : Nat) :
    Draft.Tidy ⟨nodes, Array.replicate size none, merges, []⟩ := by
  intro number content h
  simp only [Draft.content?, Array.getD_eq_getD_getElem?, Array.getElem?_replicate] at h
  split at h <;> cases h

theorem Document.content_tidy {d : Document} {c : Contents} (h : d.contents? = .ok c)
    (number : Nat) : (c.content number).Tidy := by
  have hmake : Maker.Keeps (do Maker.reach d.root; Maker.fillAll (d.nodes.size + 1))
      fun _ => True :=
    (Maker.keeps_reach d.root).bind fun _ _ => Maker.keeps_fillAll _
  unfold contents? at h
  dsimp only at h
  cases hrun : StateT.run (do Maker.reach d.root; Maker.fillAll (d.nodes.size + 1))
      ⟨d.nodes, Array.replicate d.nodes.size none, d.merges, []⟩ with
  | error failure =>
    rw [hrun] at h
    cases h
  | ok outcome =>
    rw [hrun] at h
    cases h
    refine Contents.content_tidy ?_ number
    exact (hmake _ _ _ (tidy_start _ _ _) hrun).1

/-- Whatever a text says, no mapping in its value has two keys that are the same. -/
theorem Value.distinctKeys_of_ofText? {levels : Nat} {text : String} {v : Value}
    (h : Value.ofText? levels text = .ok v) : v.Throughout DistinctKeys := by
  rw [ofText?] at h
  cases hdocument : Document.ofTokens? (.ofText text) with
  | error failure =>
    rw [hdocument] at h
    cases h
  | ok found =>
    rw [hdocument] at h
    cases found with
    | none =>
      cases h
      exact .scalar _
    | some document =>
      cases hcontents : document.contents? with
      | error failure =>
        simp only [bind, Except.bind, hcontents] at h
        cases h
      | ok contents =>
        simp only [bind, Except.bind, hcontents] at h
        cases h
        exact contents.value_distinctKeys (document.content_tidy hcontents) levels contents.root

/-- The loader for configurations answers, unless a scalar has the form of a value and is none. -/
theorem answers_load {text : String} (h : ∀ fault, load text ≠ .error (.fault fault)) :
    Loader.Answers load text where
  distinct v hv := by
    rw [load] at hv
    cases hvalue : Value.ofText? levels text with
    | error failure =>
      rw [hvalue] at hv
      cases hv
    | ok v' =>
      rw [hvalue] at hv
      cases hv
      exact Value.distinctKeys_of_ofText? hvalue
  reasoned := h

end StreamTypes.Yaml
