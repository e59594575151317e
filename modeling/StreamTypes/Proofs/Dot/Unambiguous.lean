import Mathlib.Data.List.Basic
import Mathlib.Data.List.Forall2
import StreamTypes.Dot
import StreamTypes.Proofs.Text.Unsigned

/-!
# Reading a drawing back from its text

The text of a drawing determines the drawing: where one declaration ends and the next one
begins can be told from the text alone, whatever labels and colors stand in it. A quote
inside a string is always behind a backslash, a name is made of letters and digits and
ends at the blank behind it, and what follows a name tells a node from an edge.

The text of a declaration is therefore read off any text that begins with it. For a list
of declarations, what follows must not begin like another declaration: this is the
closing bracket of a cluster, or the edges.

## Main definitions

- `Dot.readString` — a reader of the strings of the language
- `Item.Named` — nodes and clusters have names that can be told apart
- `Item.Alike` — two items that differ in the kinds of their forms only

## Main statements

- `Dot.readString_escaped` — the reader finds every text that has been written
- `Dot.itemText_append_inj`, `Dot.itemsText_append_inj` — declarations are read back
- `Dot.edgesText_inj` — edges are read back
- `Graph.alike_of_dot_eq` — two drawings with the same text are alike
-/

namespace StreamTypes

open WideText (ofString)

/-! ### Texts of characters -/

@[simp] theorem WideText.ofString_append (s t : String) :
    ofString (s ++ t) = ofString s ++ ofString t := by
  simp [ofString, ofChars]

theorem WideText.ofString_injective : Function.Injective ofString := by
  intro s t h
  refine String.toList_inj.1 (List.map_injective_iff.2 ?_ h)
  exact fun c d hcd => CodePoint.char.inj hcd

theorem WideText.mem_ofString {c : Char} {s : String} : .char c ∈ ofString s ↔ c ∈ s.toList := by
  simp [ofString, ofChars]

theorem RankDir.name_injective : Function.Injective RankDir.name := by
  intro d e h
  cases d <;> cases e <;> first | rfl | exact absurd h (by decide)

namespace Dot

/-! ### Strings -/

/-- The text of a string whose opening quote has been read, and what follows the string.
A backslash is paired with what stands behind it, and the first quote that is not paired
ends the string. -/
def readString (behindSlash : Bool) : WideText → Option (WideText × WideText)
  | [] => none
  | c :: rest =>
    if behindSlash then (readString false rest).map (Prod.map (c :: ·) id)
    else if c = .char '"' then some ([], rest)
    else if c = .char '\\' then readString true rest
    else (readString false rest).map (Prod.map (c :: ·) id)

/-- The reader finds every text that has been written, whatever follows. -/
theorem readString_escaped (t rest : WideText) :
    readString false (t.flatMap escapedPoint ++ .char '"' :: rest) = some (t, rest) := by
  induction t with
  | nil => simp [readString]
  | cons c t ih =>
    rw [List.flatMap_cons, List.append_assoc]
    by_cases hspecial : c = .char '"' ∨ c = .char '\\'
    · simp [escapedPoint, hspecial, readString, ih]
    · obtain ⟨hquote, hslash⟩ := not_or.1 hspecial
      simp [escapedPoint, hquote, hslash, readString, ih]

theorem literal_append_inj {s t x y : WideText} (h : literal s ++ x = literal t ++ y) :
    s = t ∧ x = y := by
  simp only [literal, List.cons_append, List.append_assoc, List.nil_append, List.cons.injEq,
    true_and] at h
  have hread := congrArg (readString false) h
  rw [readString_escaped, readString_escaped, Option.some.injEq, Prod.mk.injEq] at hread
  exact hread

end Dot

/-! ### Names -/

/-- Names that are made of some letters and digits behind them. -/
def IsName (letters : List Char) (name : String) : Prop :=
  ∃ digits : List Char, (∀ c ∈ digits, c.isDigit = true) ∧ name.toList = letters ++ digits

/-- The letters in the names of nodes. -/
def nodeLetters : List Char :=
  ['n']

/-- The letters in the names of clusters. -/
def clusterLetters : List Char :=
  ['c', 'l', 'u', 's', 't', 'e', 'r', '_']

theorem IsName.notMem {letters : List Char} {name : String} (h : IsName letters name) {c : Char}
    (hletters : c ∉ letters) (hdigit : c.isDigit = false) : .char c ∉ ofString name := by
  obtain ⟨digits, hdigits, hname⟩ := h
  rw [WideText.mem_ofString, hname, List.mem_append]
  rintro (hc | hc)
  · exact hletters hc
  · rw [hdigits c hc] at hdigit
    exact absurd hdigit (by decide)

/-- A name ends where a character stands that occurs in no name. -/
theorem IsName.append_inj {letters : List Char} {a b : String} (ha : IsName letters a)
    (hb : IsName letters b) {c : Char} (hletters : c ∉ letters) (hdigit : c.isDigit = false)
    {x y : WideText} (h : ofString a ++ .char c :: x = ofString b ++ .char c :: y) :
    a = b ∧ x = y := by
  obtain ⟨hname, hrest⟩ :=
    Text.append_cons_inj (ha.notMem hletters hdigit) (hb.notMem hletters hdigit) h
  exact ⟨WideText.ofString_injective hname, hrest⟩

theorem IsName.ne_subgraph {name : String} (h : IsName nodeLetters name) (x y : WideText) :
    ofString name ++ x ≠ ofString "subgraph " ++ y := by
  obtain ⟨digits, -, hname⟩ := h
  simp [ofString, WideText.ofChars, hname, nodeLetters]

mutual

/-- Each node and cluster of an item has a name of its sort. -/
def Item.Named : Item → Prop
  | .node decl => IsName nodeLetters decl.id
  | .cluster decl items => IsName clusterLetters decl.id ∧ Item.NamedAll items

def Item.NamedAll : List Item → Prop
  | [] => True
  | item :: items => item.Named ∧ Item.NamedAll items

end

/-- The declarations differ in the kinds of their forms only. -/
structure NodeDecl.Alike (d e : NodeDecl) : Prop where
  id : d.id = e.id
  label : d.label = e.label
  color : d.color = e.color

mutual

/-- The items differ in the kinds of their forms only. -/
inductive Item.Alike : Item → Item → Prop
  | node {d e : NodeDecl} : d.Alike e → Item.Alike (.node d) (.node e)
  | cluster {d e : ClusterDecl} {xs ys : List Item} :
      d.id = e.id → d.label = e.label → Item.AlikeAll xs ys →
      Item.Alike (.cluster d xs) (.cluster e ys)

/-- The items of two lists, in order, differ in the kinds of their forms only. -/
inductive Item.AlikeAll : List Item → List Item → Prop
  | nil : Item.AlikeAll [] []
  | cons {x y : Item} {xs ys : List Item} :
      Item.Alike x y → Item.AlikeAll xs ys → Item.AlikeAll (x :: xs) (y :: ys)

end

namespace Dot

/-! ### Declarations -/

theorem unlines_append (xs ys : List WideText) :
    unlines (xs ++ ys) = unlines xs ++ unlines ys :=
  List.flatMap_append

theorem unlines_cons (line : WideText) (lines : List WideText) :
    unlines (line :: lines) = line ++ .char '\n' :: unlines lines := by
  simp [unlines]

theorem pad_succ (level : Nat) : pad (level + 1) = pad level ++ ofString "  " := by
  rw [pad, pad, Nat.mul_add, List.replicate_add]
  rfl

/-- The lines before what a cluster encloses. -/
def openingLines (level : Nat) (decl : ClusterDecl) : List WideText :=
  [pad level ++ ofString ("subgraph " ++ decl.id ++ " \x7b"),
    pad level ++ ofString "  label=" ++ literal (ofString decl.label) ++ ofString ";",
    pad level ++ ofString "  style=dashed;"]

/-- The line behind what a cluster encloses. -/
def closingLine (level : Nat) : WideText :=
  pad level ++ ofString "\x7d"

theorem itemLines_cluster (level : Nat) (decl : ClusterDecl) (items : List Item) :
    itemLines true level (.cluster decl items) =
      openingLines level decl ++ itemsLines true (level + 1) items ++ [closingLine level] := by
  rw [itemLines, if_pos rfl, openingLines, closingLine]

/-- The text of an item inside `level` brackets. -/
def itemText (level : Nat) (item : Item) : WideText :=
  unlines (itemLines true level item)

/-- The text of a list of items inside `level` brackets. -/
def itemsText (level : Nat) (items : List Item) : WideText :=
  unlines (itemsLines true level items)

theorem itemsText_cons (level : Nat) (item : Item) (items : List Item) :
    itemsText level (item :: items) = itemText level item ++ itemsText level items := by
  rw [itemsText, itemsLines, unlines_append]
  rfl

theorem itemText_node (level : Nat) (decl : NodeDecl) (r : WideText) :
    itemText level (.node decl) ++ r = pad level ++ (ofString decl.id ++ .char ' ' ::
      (ofString "[label=" ++ (literal (ofString decl.label) ++ (ofString ", fillcolor=" ++
        (literal (ofString decl.color) ++ (ofString "];\n" ++ r)))))) := by
  simp [itemText, itemLines, unlines, nodeLine, ofString, WideText.ofChars]

theorem itemText_cluster (level : Nat) (decl : ClusterDecl) (items : List Item) (r : WideText) :
    itemText level (.cluster decl items) ++ r = pad level ++ (ofString "subgraph " ++
      (ofString decl.id ++ .char ' ' :: (ofString "\x7b\n" ++ (pad level ++ (ofString "  label=" ++
        (literal (ofString decl.label) ++ (ofString ";\n" ++ (pad level ++
          (ofString "  style=dashed;\n" ++ (itemsText (level + 1) items ++
            (pad level ++ (ofString "\x7d\n" ++ r)))))))))))) := by
  simp [itemText, itemsText, itemLines, unlines, ofString, WideText.ofChars]

/-- A text begins like no item inside `level` brackets. -/
def BeginsNoItem (level : Nat) (r : WideText) : Prop :=
  ∀ item : Item, item.Named → ∀ s, itemText level item ++ s ≠ r

theorem beginsNoItem_closing (level : Nat) (r : WideText) :
    BeginsNoItem (level + 1) (pad level ++ (ofString "\x7d\n" ++ r)) := by
  intro item _ s h
  have hpad : ∃ w, itemText (level + 1) item ++ s = pad (level + 1) ++ w := by
    cases item with
    | node decl => exact ⟨_, itemText_node _ decl s⟩
    | cluster decl items => exact ⟨_, itemText_cluster _ decl items s⟩
  obtain ⟨w, hw⟩ := hpad
  rw [hw, pad_succ, List.append_assoc] at h
  exact absurd (List.append_cancel_left h) (by simp [ofString, WideText.ofChars])

mutual

/-- The text of an item is read off any text that begins with it. -/
theorem itemText_append_inj {level : Nat} : {x y : Item} → {r s : WideText} → x.Named → y.Named →
    itemText level x ++ r = itemText level y ++ s → x.Alike y ∧ r = s
  | .node d, .node e, r, s, hd, he, h => by
    rw [itemText_node, itemText_node] at h
    obtain ⟨hid, h⟩ := hd.append_inj he (by decide) rfl (List.append_cancel_left h)
    obtain ⟨hlabel, h⟩ := literal_append_inj (List.append_cancel_left h)
    obtain ⟨hcolor, h⟩ := literal_append_inj (List.append_cancel_left h)
    have halike : d.Alike e :=
      ⟨hid, WideText.ofString_injective hlabel, WideText.ofString_injective hcolor⟩
    exact ⟨.node halike, List.append_cancel_left h⟩
  | .cluster d xs, .cluster e ys, r, s, hd, he, h => by
    rw [itemText_cluster, itemText_cluster] at h
    obtain ⟨hid, h⟩ := hd.1.append_inj he.1 (by decide) rfl
      (List.append_cancel_left (List.append_cancel_left h))
    obtain ⟨hlabel, h⟩ := literal_append_inj
      (List.append_cancel_left (List.append_cancel_left (List.append_cancel_left h)))
    obtain ⟨hitems, h⟩ := itemsText_append_inj hd.2 he.2 (beginsNoItem_closing level _)
      (beginsNoItem_closing level _)
      (List.append_cancel_left (List.append_cancel_left (List.append_cancel_left h)))
    exact ⟨.cluster hid (WideText.ofString_injective hlabel) hitems,
      List.append_cancel_left (List.append_cancel_left h)⟩
  | .node d, .cluster e ys, r, s, hd, he, h => by
    rw [itemText_node, itemText_cluster] at h
    -- no name of a node begins like the keyword of a cluster
    exact absurd (List.append_cancel_left h) (hd.ne_subgraph _ _)
  | .cluster d xs, .node e, r, s, hd, he, h => by
    rw [itemText_node, itemText_cluster] at h
    exact absurd (List.append_cancel_left h).symm (he.ne_subgraph _ _)

/-- The text of a list of items is read off any text that begins with it, if nothing that
begins like another item follows. -/
theorem itemsText_append_inj {level : Nat} : {xs ys : List Item} → {r s : WideText} →
    Item.NamedAll xs → Item.NamedAll ys → BeginsNoItem level r → BeginsNoItem level s →
    itemsText level xs ++ r = itemsText level ys ++ s → Item.AlikeAll xs ys ∧ r = s
  | [], [], _, _, _, _, _, _, h => ⟨.nil, h⟩
  | [], y :: ys, r, s, _, hy, hr, _, h => by
    rw [itemsText_cons, List.append_assoc] at h
    exact absurd h.symm (hr y hy.1 _)
  | x :: xs, [], r, s, hx, _, _, hs, h => by
    rw [itemsText_cons, List.append_assoc] at h
    exact absurd h (hs x hx.1 _)
  | x :: xs, y :: ys, r, s, hx, hy, hr, hs, h => by
    rw [itemsText_cons, itemsText_cons, List.append_assoc, List.append_assoc] at h
    obtain ⟨hitem, h⟩ := itemText_append_inj hx.1 hy.1 h
    obtain ⟨hitems, h⟩ := itemsText_append_inj hx.2 hy.2 hr hs h
    exact ⟨.cons hitem hitems, h⟩

end

/-! ### Edges -/

/-- Both ends of each edge have names of nodes. -/
def EdgesNamed (edges : List (String × String)) : Prop :=
  ∀ edge ∈ edges, IsName nodeLetters edge.1 ∧ IsName nodeLetters edge.2

/-- The text of a list of edges and of the bracket behind them. -/
def edgesText (edges : List (String × String)) : WideText :=
  unlines (edges.map edgeLine ++ [ofString "\x7d"])

theorem edgesText_nil : edgesText [] = ofString "\x7d\n" :=
  rfl

theorem edgesText_cons (edge : String × String) (edges : List (String × String)) :
    edgesText (edge :: edges) = ofString "  " ++ (ofString edge.1 ++ .char ' ' ::
      (ofString "-> " ++ (ofString edge.2 ++ .char ';' :: (.char '\n' :: edgesText edges)))) := by
  simp [edgesText, edgeLine, unlines_cons, ofString, WideText.ofChars]

/-- Neither the first edge nor the bracket behind all edges begins like an item. -/
theorem beginsNoItem_edgesText {edges : List (String × String)} (h : EdgesNamed edges) :
    BeginsNoItem 1 (edgesText edges) := by
  cases edges with
  | nil => exact beginsNoItem_closing 0 []
  | cons edge edges =>
    have hedge := h edge (by simp)
    intro item hitem s heq
    rw [edgesText_cons] at heq
    cases item with
    | node decl =>
      rw [itemText_node] at heq
      -- a node and an edge may begin with the same name, but go on differently
      obtain ⟨-, hrest⟩ := hitem.append_inj hedge.1 (by decide) rfl (List.append_cancel_left heq)
      simp [ofString, WideText.ofChars] at hrest
    | cluster decl items =>
      rw [itemText_cluster] at heq
      exact absurd (List.append_cancel_left heq).symm (hedge.1.ne_subgraph _ _)

theorem edgesText_inj {es fs : List (String × String)} (hes : EdgesNamed es)
    (hfs : EdgesNamed fs) (h : edgesText es = edgesText fs) : es = fs := by
  induction es generalizing fs with
  | nil =>
    cases fs with
    | nil => rfl
    | cons f fs =>
      rw [edgesText_nil, edgesText_cons] at h
      simp [ofString, WideText.ofChars] at h
  | cons e es ih =>
    cases fs with
    | nil =>
      rw [edgesText_nil, edgesText_cons] at h
      simp [ofString, WideText.ofChars] at h
    | cons f fs =>
      rw [edgesText_cons, edgesText_cons] at h
      have he := hes e (by simp)
      have hf := hfs f (by simp)
      obtain ⟨hsource, h⟩ := he.1.append_inj hf.1 (by decide) rfl (List.append_cancel_left h)
      obtain ⟨htarget, h⟩ := he.2.append_inj hf.2 (by decide) rfl (List.append_cancel_left h)
      have hrest : es = fs := ih (fun edge hedge => hes edge (List.mem_cons_of_mem _ hedge))
        (fun edge hedge => hfs edge (List.mem_cons_of_mem _ hedge)) (List.cons.inj h).2
      rw [Prod.ext hsource htarget, hrest]

end Dot

/-! ### Whole drawings -/

mutual

theorem Item.Named.nodes : {item : Item} → item.Named →
    ∀ decl ∈ item.nodes, IsName nodeLetters decl.id
  | .node _, h => List.forall_mem_singleton.2 h
  | .cluster _ _, h => Item.NamedAll.nodesOf h.2

theorem Item.NamedAll.nodesOf : {items : List Item} → Item.NamedAll items →
    ∀ decl ∈ Item.nodesOf items, IsName nodeLetters decl.id
  | [], _ => List.forall_mem_nil _
  | _ :: _, h => List.forall_mem_append.2 ⟨h.1.nodes, Item.NamedAll.nodesOf h.2⟩

end

mutual

theorem Item.Alike.nodes {x y : Item} : x.Alike y → List.Forall₂ NodeDecl.Alike x.nodes y.nodes
  | .node h => .cons h .nil
  | .cluster _ _ h => h.nodesOf

theorem Item.AlikeAll.nodesOf {xs ys : List Item} : Item.AlikeAll xs ys →
    List.Forall₂ NodeDecl.Alike (Item.nodesOf xs) (Item.nodesOf ys)
  | .nil => .nil
  | .cons h hrest => List.rel_append h.nodes hrest.nodesOf

end

theorem Item.namedAll_nodes {decls : List NodeDecl}
    (h : ∀ decl ∈ decls, IsName nodeLetters decl.id) : Item.NamedAll (decls.map .node) := by
  induction decls with
  | nil => trivial
  | cons decl decls ih =>
    exact ⟨h decl (by simp), ih fun d hd => h d (List.mem_cons_of_mem _ hd)⟩

theorem Item.nodesOf_nodes (decls : List NodeDecl) : Item.nodesOf (decls.map .node) = decls := by
  induction decls with
  | nil => rfl
  | cons decl decls ih => rw [List.map_cons, Item.nodesOf, ih, Item.nodes, List.singleton_append]

namespace Dot

theorem itemsLines_nodes (clusters : Bool) (level : Nat) (decls : List NodeDecl) :
    itemsLines clusters level (decls.map .node) =
      decls.map fun decl => pad level ++ nodeLine decl := by
  induction decls with
  | nil => rfl
  | cons decl decls ih =>
    rw [List.map_cons, itemsLines, ih, itemLines, List.singleton_append, List.map_cons]

mutual

theorem itemLines_without_clusters (level : Nat) : (item : Item) →
    itemLines false level item = item.nodes.map fun decl => pad level ++ nodeLine decl
  | .node _ => rfl
  | .cluster _ items => itemsLines_without_clusters level items

/-- Without clusters, the nodes are left, in order. -/
theorem itemsLines_without_clusters (level : Nat) : (items : List Item) →
    itemsLines false level items =
      (Item.nodesOf items).map fun decl => pad level ++ nodeLine decl
  | [] => rfl
  | item :: items => by
    rw [itemsLines, itemLines_without_clusters level item,
      itemsLines_without_clusters level items, Item.nodesOf, List.map_append]

end

end Dot

namespace Graph

open Dot

/-- What is drawn of a graph, with its clusters or without them. -/
def drawn (g : Graph) (clusters : Bool) : Graph :=
  if clusters then g else g.flattened

theorem nodes_drawn (g : Graph) (clusters : Bool) : (g.drawn clusters).nodes = g.nodes := by
  cases clusters
  · exact Item.nodesOf_nodes g.nodes
  · rfl

/-- The text is made of the lines before all items, the items, and the edges. -/
theorem dot_eq (g : Graph) (options : DotOptions) :
    g.dot options = unlines (headLines options) ++
      (itemsText 1 (g.drawn options.clusters).items ++ edgesText g.edges) := by
  have hitems : itemsLines options.clusters 1 g.items =
      itemsLines true 1 (g.drawn options.clusters).items := by
    cases options.clusters
    · rw [itemsLines_without_clusters, drawn, if_neg (by decide), flattened, itemsLines_nodes]
      rfl
    · rfl
  rw [Graph.dot, hitems, List.append_assoc, List.append_assoc, unlines_append, unlines_append,
    itemsText, edgesText]

/-- Nodes and clusters have names that can be told apart, and edges are between nodes. -/
structure Named (g : Graph) : Prop where
  items : Item.NamedAll g.items
  edges : EdgesNamed g.edges

theorem Named.drawn {g : Graph} (h : g.Named) (clusters : Bool) : (g.drawn clusters).Named := by
  cases clusters
  · exact ⟨Item.namedAll_nodes h.items.nodesOf, h.edges⟩
  · exact h

/-- Two drawings with the same text have the same edges, and what is drawn of them differs
in the kinds of forms only. -/
theorem alike_of_dot_eq {g h : Graph} (hg : g.Named) (hh : h.Named) {options : DotOptions}
    (htext : g.dot options = h.dot options) :
    Item.AlikeAll (g.drawn options.clusters).items (h.drawn options.clusters).items ∧
      g.edges = h.edges := by
  rw [dot_eq, dot_eq] at htext
  obtain ⟨hitems, hedges⟩ := itemsText_append_inj (hg.drawn options.clusters).items
    (hh.drawn options.clusters).items (beginsNoItem_edgesText hg.edges)
    (beginsNoItem_edgesText hh.edges) (List.append_cancel_left htext)
  exact ⟨hitems, edgesText_inj hg.edges hh.edges hedges⟩

end Graph

end StreamTypes
