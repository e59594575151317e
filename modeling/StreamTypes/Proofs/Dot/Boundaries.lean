import StreamTypes.Proofs.Dot.Unambiguous

/-!
# Drawing without cluster boundaries

Without clusters, a drawing is that of its nodes in a row. The lines that declare them are those
of the drawing with clusters, but for the blanks before them: the line of a node is the only kind
of line that ends with a closing bracket and a semicolon, and all other lines before the edges
belong to the boundaries of clusters.

## Main definitions

- `Dot.declaresNode`, `Dot.unindented` — the lines of nodes, and lines without their blanks
- `Dot.boundaryLines` — the lines at the boundary of a cluster

## Main statements

- `Dot.declarations_itemsLines` — the lines of nodes in a drawing with clusters
- `Dot.mem_boundaryLines_of_itemsLines` — all other lines belong to boundaries
- `Graph.dot_without_clusters` — what is left of a drawing without its clusters
-/

namespace StreamTypes

open WideText (ofString)

namespace Dot

/-! ### Lines -/

/-- A line without the blanks before it. -/
def unindented (line : WideText) : WideText :=
  line.dropWhile (· = .char ' ')

/-- Whether a line ends like the declaration of a node. -/
def declaresNode (line : WideText) : Bool :=
  (ofString "];").isSuffixOf line

/-- The lines at the boundary of a cluster, without the blanks before them. -/
def boundaryLines (decl : ClusterDecl) : List WideText :=
  [ofString ("subgraph " ++ decl.id ++ " \x7b"),
    ofString "label=" ++ literal (ofString decl.label) ++ ofString ";",
    ofString "style=dashed;", ofString "\x7d"]

theorem unindented_pad (level : Nat) (line : WideText) :
    unindented (pad level ++ line) = unindented line := by
  apply List.dropWhile_append_of_pos
  intro c hc
  rw [List.eq_of_mem_replicate hc]
  rfl

theorem declaresNode_nodeLine (level : Nat) (decl : NodeDecl) :
    declaresNode (pad level ++ nodeLine decl) = true := by
  rw [declaresNode, List.isSuffixOf_iff_suffix, nodeLine, ← List.append_assoc]
  exact List.suffix_append _ _

/-- A line that ends with another character is not that of a node. -/
theorem declaresNode_of_last {c : CodePoint} (hc : c ≠ .char ';') (line : WideText) :
    declaresNode (line ++ [c]) = false := by
  show List.isPrefixOf (ofString "];").reverse (line ++ [c]).reverse = false
  rw [List.reverse_append]
  simp [ofString, WideText.ofChars, List.isPrefixOf, hc.symm]

/-- A line in which another character stands before the last one is not that of a node. -/
theorem declaresNode_of_beforeLast {c : CodePoint} (hc : c ≠ .char ']') (line : WideText)
    (d : CodePoint) : declaresNode (line ++ [c, d]) = false := by
  show List.isPrefixOf (ofString "];").reverse (line ++ [c, d]).reverse = false
  rw [List.reverse_append]
  simp [ofString, WideText.ofChars, List.isPrefixOf, hc.symm]

/-- The lines around what a cluster encloses declare no node. -/
theorem boundary_of_openingLines {level : Nat} {decl : ClusterDecl} {line : WideText}
    (h : line ∈ openingLines level decl ++ [closingLine level]) :
    declaresNode line = false ∧ unindented line ∈ boundaryLines decl := by
  simp only [openingLines, closingLine, List.mem_append, List.mem_cons, List.not_mem_nil,
    or_false] at h
  rcases h with (rfl | rfl | rfl) | rfl
  · have hline : unindented (pad level ++ ofString ("subgraph " ++ decl.id ++ " \x7b")) =
        ofString ("subgraph " ++ decl.id ++ " \x7b") := by
      rw [unindented_pad, WideText.ofString_append, WideText.ofString_append]
      rfl
    constructor
    · rw [WideText.ofString_append, ← List.append_assoc]
      exact declaresNode_of_beforeLast (by decide) _ _
    · rw [hline]
      simp [boundaryLines]
  · have hline : unindented (pad level ++ ofString "  label=" ++ literal (ofString decl.label) ++
        ofString ";") = ofString "label=" ++ literal (ofString decl.label) ++ ofString ";" := by
      rw [List.append_assoc, List.append_assoc, unindented_pad]
      rfl
    constructor
    · have hend : literal (ofString decl.label) ++ ofString ";" =
          .char '"' :: (ofString decl.label).flatMap escapedPoint ++ [.char '"', .char ';'] := by
        simp [literal, ofString, WideText.ofChars]
      rw [List.append_assoc, hend, ← List.append_assoc]
      exact declaresNode_of_beforeLast (by decide) _ _
    · rw [hline]
      simp [boundaryLines]
  · have hline : unindented (pad level ++ ofString "  style=dashed;") =
        ofString "style=dashed;" := by
      rw [unindented_pad]
      rfl
    constructor
    · have hend : ofString "  style=dashed;" =
          ofString "  style=dashe" ++ [.char 'd', .char ';'] := rfl
      rw [hend, ← List.append_assoc]
      exact declaresNode_of_beforeLast (by decide) _ _
    · rw [hline]
      simp [boundaryLines]
  · have hline : unindented (pad level ++ ofString "\x7d") = ofString "\x7d" := by
      rw [unindented_pad]
      rfl
    constructor
    · exact declaresNode_of_last (by decide) _
    · rw [hline]
      simp [boundaryLines]

mutual

theorem declarations_itemLines (level : Nat) : (item : Item) →
    ((itemLines true level item).filter declaresNode).map unindented =
      item.nodes.map fun decl => unindented (nodeLine decl)
  | .node decl => by
    simp [itemLines, declaresNode_nodeLine, unindented_pad, Item.nodes]
  | .cluster decl items => by
    have hboundary : ∀ line ∈ openingLines level decl ++ [closingLine level],
        ¬ declaresNode line = true := by
      intro line hline
      simp [boundary_of_openingLines hline]
    have hopening : (openingLines level decl).filter declaresNode = [] :=
      List.filter_eq_nil_iff.2 fun line hline => hboundary line (by simp [hline])
    have hclosing : [closingLine level].filter declaresNode = [] :=
      List.filter_eq_nil_iff.2 fun line hline => hboundary line (List.mem_append_right _ hline)
    rw [itemLines_cluster, List.filter_append, List.filter_append, hopening, hclosing,
      List.nil_append, List.append_nil, declarations_itemsLines, Item.nodes]

/-- The lines that declare nodes, but for the blanks before them, wherever they are enclosed. -/
theorem declarations_itemsLines (level : Nat) : (items : List Item) →
    ((itemsLines true level items).filter declaresNode).map unindented =
      (Item.nodesOf items).map fun decl => unindented (nodeLine decl)
  | [] => rfl
  | item :: items => by
    rw [itemsLines, List.filter_append, List.map_append, declarations_itemLines,
      declarations_itemsLines, Item.nodesOf, List.map_append]

end

mutual

theorem mem_boundaryLines_of_itemLines {level : Nat} {line : WideText}
    (h : declaresNode line = false) : {item : Item} → line ∈ itemLines true level item →
      ∃ decl ∈ item.clusters, unindented line ∈ boundaryLines decl
  | .node decl, hline => by
    rw [itemLines, List.mem_singleton] at hline
    rw [hline, declaresNode_nodeLine] at h
    cases h
  | .cluster decl items, hline => by
    rw [itemLines_cluster, List.append_assoc, List.mem_append, List.mem_append] at hline
    rcases hline with hline | hline | hline
    · exact ⟨decl, List.mem_cons_self ..,
        (boundary_of_openingLines (List.mem_append_left _ hline)).2⟩
    · obtain ⟨inner, hinner, hmem⟩ := mem_boundaryLines_of_itemsLines h hline
      exact ⟨inner, List.mem_cons_of_mem _ hinner, hmem⟩
    · exact ⟨decl, List.mem_cons_self ..,
        (boundary_of_openingLines (List.mem_append_right _ hline)).2⟩

/-- A line that declares no node belongs to the boundary of a cluster. -/
theorem mem_boundaryLines_of_itemsLines {level : Nat} {line : WideText}
    (h : declaresNode line = false) : {items : List Item} → line ∈ itemsLines true level items →
      ∃ decl ∈ Item.clustersOf items, unindented line ∈ boundaryLines decl
  | [], hline => by cases hline
  | item :: items, hline => by
    rw [itemsLines, List.mem_append] at hline
    rw [Item.clustersOf]
    rcases hline with hline | hline
    · obtain ⟨decl, hdecl, hmem⟩ := mem_boundaryLines_of_itemLines h hline
      exact ⟨decl, List.mem_append_left _ hdecl, hmem⟩
    · obtain ⟨decl, hdecl, hmem⟩ := mem_boundaryLines_of_itemsLines h hline
      exact ⟨decl, List.mem_append_right _ hdecl, hmem⟩

end

end Dot

namespace Graph

open Dot

theorem dot_flattened (g : Graph) (options : DotOptions) (clusters : Bool) :
    g.dot { options with clusters := false } =
      g.flattened.dot { options with clusters := clusters } := by
  have hdrawn : (g.flattened.drawn clusters).items = g.flattened.items := by
    cases clusters
    · exact congrArg (List.map Item.node) (Item.nodesOf_nodes g.nodes)
    · rfl
  rw [dot_eq, dot_eq, hdrawn]
  rfl

/-- Without clusters, the text of a drawing is that of its nodes in a row, drawn in either way. Its
lines are those of the drawing with clusters that declare nodes, but for the blanks before them,
and all other lines there before the edges belong to the boundary of a cluster. -/
theorem dot_without_clusters (g : Graph) (options : DotOptions) :
    (∀ clusters, g.dot { options with clusters := false } =
        g.flattened.dot { options with clusters := clusters }) ∧
      (∀ clusters, g.dot { options with clusters := clusters } = unlines (headLines options ++
        itemsLines clusters 1 g.items ++ g.edges.map edgeLine ++ [ofString "\x7d"])) ∧
      ((itemsLines true 1 g.items).filter declaresNode).map unindented =
        (itemsLines false 1 g.items).map unindented ∧
      itemsLines false 1 g.items = g.nodes.map (fun decl => pad 1 ++ nodeLine decl) ∧
      ∀ line ∈ itemsLines true 1 g.items, declaresNode line = false →
        ∃ decl ∈ g.clusters, unindented line ∈ boundaryLines decl := by
  have hflat : itemsLines false 1 g.items = g.nodes.map (fun decl => pad 1 ++ nodeLine decl) :=
    itemsLines_without_clusters 1 g.items
  refine ⟨dot_flattened g options, fun _ => rfl, ?_, hflat, fun line hline hend => ?_⟩
  · rw [hflat, declarations_itemsLines, List.map_map]
    apply List.map_congr_left
    intro decl _
    exact (unindented_pad 1 _).symm
  · exact mem_boundaryLines_of_itemsLines hend hline

/-- A cluster inside another one, with an empty one beside it. -/
theorem dot_without_clusters_of_nested :
    let inner : Item := .cluster ⟨"cluster_1", "Dim", .wrap .dim⟩
      [.node ⟨"n0", "Bits<1>", .bits, ""⟩, .cluster ⟨"cluster_0", "\x7d", .wrap .rev⟩ []]
    let g : Graph := ⟨[.cluster ⟨"cluster_2", "Root", .wrap .root⟩
      [inner, .node ⟨"n1", "];", .bits, ""⟩]], []⟩
    g.dot { clusters := false } = g.flattened.dot ∧
      ((itemsLines true 1 g.items).filter declaresNode).map unindented =
        (itemsLines false 1 g.items).map unindented ∧
      declaresNode (pad 3 ++ ofString "subgraph cluster_0 \x7b") = false ∧
      ∃ decl ∈ g.clusters,
        unindented (pad 3 ++ ofString "subgraph cluster_0 \x7b") ∈ boundaryLines decl := by
  intro inner g
  obtain ⟨hflat, -, hlines, -, hboundary⟩ := dot_without_clusters g {}
  refine ⟨hflat true, hlines, rfl, hboundary _ ?_ rfl⟩
  simp [g, inner, itemsLines, itemLines]

end Graph

end StreamTypes
