import StreamTypes.Data.Basic
import StreamTypes.Proofs.Json.Indented
import StreamTypes.Proofs.River.Expression
import StreamTypes.Proofs.River.ShapeCheck

/-!
# Trees and data types as JSON

Nothing is lost when a tree or a data type is written as JSON. The field `kind` comes first and
tells which form it is, so forms with the same other fields stay apart; a parameter that is not
written is `null` and no number; and the nodes of a tree are written with their places. So the JSON
value determines the tree or the type, and a text determines the JSON value.

## Main statements

- `River.Tree.toJson_injective`, `Data.toJson_injective` — the JSON value determines what it is of
- `json_text_exact` — and so does its text, on one line or on many
-/

namespace StreamTypes

theorem Json.nat_injective : Function.Injective Json.nat := by
  intro m n h
  exact Int.ofNat.inj (Json.num.inj h)

theorem Json.optNat_injective : Function.Injective Json.optNat := by
  intro m n h
  cases m with
  | none =>
    cases n with
    | none => rfl
    | some n => cases h
  | some m =>
    cases n with
    | none => cases h
    | some n => exact congrArg some (Json.nat_injective h)

namespace River

theorem Params.toJson_injective : Function.Injective Params.toJson := by
  intro p q h
  cases p
  cases q
  simpa [Params.toJson, Json.optNat_injective.eq_iff] using h

/-- The keyword comes first, and tells which kind of node it is. -/
theorem Node.kind_eq_of_toJson {ι : Type} {reference : ι → Json} {m n : Node ι}
    (h : m.toJson reference = n.toJson reference) : m.kind = n.kind := by
  refine keyword_injective ?_
  cases m <;> cases n <;> simp_all [Node.toJson]

theorem Node.toJson_injective {ι : Type} {reference : ι → Json}
    (hreference : Function.Injective reference) : Function.Injective (Node.toJson reference) := by
  intro m n h
  have hkind := Node.kind_eq_of_toJson h
  cases m with
  | bits width =>
    cases n with
    | bits width' =>
      rw [Node.toJson, Node.toJson, hkind] at h
      simpa [Json.nat_injective.eq_iff] using h
    | _ => cases hkind
  | wrap wrapper child params =>
    cases n with
    | wrap wrapper' child' params' =>
      cases hkind
      simp only [Node.toJson, Json.obj.injEq, List.cons.injEq, Prod.mk.injEq, true_and, and_true,
        hreference.eq_iff, Params.toJson_injective.eq_iff] at h
      obtain ⟨-, rfl, rfl⟩ := h
      rfl
    | _ => cases hkind
  | collect collection first rest =>
    cases n with
    | collect collection' first' rest' =>
      cases hkind
      simp only [Node.toJson, Json.obj.injEq, List.cons.injEq, Prod.mk.injEq, true_and, and_true,
        Json.arr.injEq, (List.map_injective_iff.2 hreference).eq_iff] at h
      obtain ⟨-, rfl, rfl⟩ := h
      rfl
    | _ => cases hkind

theorem Tree.toJson_injective : Function.Injective Tree.toJson := by
  intro t u h
  have hnode : Function.Injective (Node.toJson Json.nat) :=
    Node.toJson_injective Json.nat_injective
  rw [Tree.toJson, Tree.toJson, Json.obj.injEq, List.cons.injEq, Prod.mk.injEq, Json.arr.injEq] at h
  exact Tree.eq_of_nodes_eq (List.map_injective_iff.2 hnode h.1.2)

end River

namespace Data

mutual

/-- The field `kind` comes first and tells the forms apart; the members of equal forms are compared
one by one. -/
theorem eq_of_toJson_eq : ∀ (a : Data) {b : Data}, a.toJson = b.toJson → a = b
  | .empty, b, h => by
    cases b with
    | empty => rfl
    | _ => simp [toJson] at h
  | .prim bits, b, h => by
    cases b with
    | prim bits' => simpa [toJson, Json.nat_injective.eq_iff] using h
    | _ => simp [toJson] at h
  | .struct first rest, b, h => by
    cases b with
    | struct first' rest' =>
      have hmembers : first.toJson = first'.toJson ∧ toJsonList rest = toJsonList rest' := by
        simpa [toJson] using h
      rw [eq_of_toJson_eq first hmembers.1, eq_of_toJsonList_eq rest hmembers.2]
    | _ => simp [toJson] at h
  | .tuple element count, b, h => by
    cases b with
    | tuple element' count' =>
      have hparts : element.toJson = element'.toJson ∧ count = count' := by
        simpa [toJson, Json.nat_injective.eq_iff] using h
      rw [eq_of_toJson_eq element hparts.1, hparts.2]
    | _ => simp [toJson] at h
  | .seq element, b, h => by
    cases b with
    | seq element' => rw [eq_of_toJson_eq element (by simpa [toJson] using h)]
    | _ => simp [toJson] at h
  | .variant first rest, b, h => by
    cases b with
    | variant first' rest' =>
      have hmembers : first.toJson = first'.toJson ∧ toJsonList rest = toJsonList rest' := by
        simpa [toJson] using h
      rw [eq_of_toJson_eq first hmembers.1, eq_of_toJsonList_eq rest hmembers.2]
    | _ => simp [toJson] at h

theorem eq_of_toJsonList_eq : ∀ (as : List Data) {bs : List Data},
    toJsonList as = toJsonList bs → as = bs
  | [], bs, h => by
    cases bs with
    | nil => rfl
    | cons => cases h
  | a :: as, bs, h => by
    cases bs with
    | nil => cases h
    | cons b bs =>
      rw [toJsonList, toJsonList, List.cons.injEq] at h
      rw [eq_of_toJson_eq a h.1, eq_of_toJsonList_eq as h.2]

end

theorem toJson_injective : Function.Injective Data.toJson :=
  fun a _ h => eq_of_toJson_eq a h

end Data

/-- Two trees are equal, with all their nodes and the root, exactly if they are written as the same
JSON text, on one line or on many; and so are two data types. -/
theorem json_text_exact :
    (∀ t u : River.Tree, (t.toJson.compact = u.toJson.compact ↔ t = u) ∧
      (t.toJson.indented = u.toJson.indented ↔ t = u)) ∧
    (∀ a b : Data, (a.toJson.compact = b.toJson.compact ↔ a = b) ∧
      (a.toJson.indented = b.toJson.indented ↔ a = b)) := by
  refine ⟨fun t u => ⟨?_, ?_⟩, fun a b => ⟨?_, ?_⟩⟩
  · exact (Json.compact_injective.comp River.Tree.toJson_injective).eq_iff
  · exact (Json.indented_injective.comp River.Tree.toJson_injective).eq_iff
  · exact (Json.compact_injective.comp Data.toJson_injective).eq_iff
  · exact (Json.indented_injective.comp Data.toJson_injective).eq_iff

/-- A parameter that is not written stays apart from its default. -/
example : (River.Params.toJson {}).compact ≠
    (River.Params.toJson (River.Params.resolved {})).compact := by
  decide

end StreamTypes
