import StreamTypes.Proofs.Dot.Tokens

/-!
# What a reader finds in a drawing

In the text of a drawing, the reader finds the lines before all declarations, then the
declarations, and then the edges. Each cluster that is opened among the declarations is closed
among them, whatever stands in labels. Since the lines before all declarations show how a drawing
is presented, two drawings with the same text are presented in the same way, and so they are alike.

## Main definitions

- `Dot.itemsTokens`, `Dot.edgeTokens`, `Dot.headTokens` — what is found of the parts of a drawing
- `Dot.Balanced` — each opening bracket has its closing bracket

## Main statements

- `Dot.readTokens_dot` — what the reader finds in the text of a drawing
- `Dot.balanced_itemsTokens` — each cluster that is opened is closed
- `Graph.options_eq_of_dot_eq` — the text of a drawing tells how it is presented
- `Graph.dot_unambiguous` — the text of a drawing tells all that is drawn
-/

namespace StreamTypes

open WideText (ofString)

namespace Dot

/-! ### Declarations -/

open Token (ofName sign)

/-- What is found of the declaration of a node. -/
def nodeTokens (decl : NodeDecl) : List Token :=
  [ofName decl.id, sign '[', ofName "label", sign '=', .string (ofString decl.label), sign ',',
    ofName "fillcolor", sign '=', .string (ofString decl.color), sign ']', sign ';']

/-- What is found at the beginning of a cluster. -/
def openingTokens (decl : ClusterDecl) : List Token :=
  [ofName "subgraph", ofName decl.id, sign '\x7b', ofName "label", sign '=',
    .string (ofString decl.label), sign ';', ofName "style", sign '=', ofName "dashed", sign ';']

mutual

/-- What is found of an item. -/
def itemTokens : Item → List Token
  | .node decl => nodeTokens decl
  | .cluster decl items => openingTokens decl ++ itemsTokens items ++ [sign '\x7d']

/-- What is found of a list of items. -/
def itemsTokens : List Item → List Token
  | [] => []
  | item :: items => itemTokens item ++ itemsTokens items

end

/-- What is found of an edge. -/
def edgeTokens (edge : String × String) : List Token :=
  [ofName edge.1, ofName "->", ofName edge.2, sign ';']

/-- What is found before all declarations. -/
def headTokens (options : DotOptions) : List Token :=
  [ofName "digraph", .string options.graphName, sign '\x7b',
    ofName "graph", sign '[', ofName "rankdir", sign '=', ofName options.rankdir.name, sign ',',
    ofName "fontname", sign '=', .string options.fontname, sign ']', sign ';',
    ofName "node", sign '[', ofName "shape", sign '=', ofName "box", sign ',',
    ofName "style", sign '=', ofName "filled", sign ',',
    ofName "fontname", sign '=', .string options.fontname, sign ']', sign ';']

theorem reads_nodeLine {decl : NodeDecl} (h : IsName nodeLetters decl.id) :
    Reads (nodeLine decl) (nodeTokens decl) := by
  have hid : Reads (ofString decl.id ++ ofString " [label=")
      [ofName decl.id, sign '[', ofName "label", sign '='] :=
    Reads.name (reads_of_readTokens (by decide +kernel)) h (by decide)
  have hcolor : Reads (ofString ", fillcolor=") [sign ',', ofName "fillcolor", sign '='] :=
    reads_of_readTokens (by decide +kernel)
  have hend : Reads (ofString "];") [sign ']', sign ';'] :=
    reads_of_readTokens (by decide +kernel)
  exact (((hid.append (reads_literal _)).append hcolor).append (reads_literal _)).append hend

theorem reads_subgraph {decl : ClusterDecl} (h : IsName clusterLetters decl.id) :
    Reads (ofString ("subgraph " ++ decl.id ++ " \x7b"))
      [ofName "subgraph", ofName decl.id, sign '\x7b'] := by
  have hopen : Reads (ofString " \x7b") [sign '\x7b'] :=
    reads_of_readTokens (by decide +kernel)
  have hkeyword : Reads (ofString "subgraph ") [ofName "subgraph"] :=
    reads_of_readTokens (by decide +kernel)
  rw [WideText.ofString_append, WideText.ofString_append, List.append_assoc]
  exact hkeyword.append (hopen.name h (by decide))

theorem reads_edgeLine {edge : String × String} (hsource : IsName nodeLetters edge.1)
    (htarget : IsName nodeLetters edge.2) : Reads (edgeLine edge) (edgeTokens edge) := by
  have hindent : Reads (ofString "  ") [] :=
    reads_of_readTokens (by decide +kernel)
  have harrow : Reads (ofString " -> ") [ofName "->"] :=
    reads_of_readTokens (by decide +kernel)
  have hend : Reads (ofString ";") [sign ';'] :=
    reads_of_readTokens (by decide +kernel)
  have hbehind := hend.name htarget (by decide)
  have hline : edgeLine edge = ofString "  " ++ (ofString edge.1 ++ (ofString " -> " ++
      (ofString edge.2 ++ ofString ";"))) := by
    simp [edgeLine]
  rw [hline]
  exact hindent.append ((harrow.append hbehind).name hsource rfl)

/-- What is found of the font and of what follows it. -/
theorem reads_font (font : WideText) :
    Reads (ofString ", fontname=" ++ literal font ++ ofString "];")
      [sign ',', ofName "fontname", sign '=', .string font, sign ']', sign ';'] := by
  have hfont : Reads (ofString ", fontname=") [sign ',', ofName "fontname", sign '='] :=
    reads_of_readTokens (by decide +kernel)
  have hend : Reads (ofString "];") [sign ']', sign ';'] :=
    reads_of_readTokens (by decide +kernel)
  exact (hfont.append (reads_literal font)).append hend

theorem reads_headLines (options : DotOptions) :
    Reads (unlines (headLines options)) (headTokens options) := by
  have hname : Reads (ofString "digraph " ++ literal options.graphName ++ ofString " \x7b")
      [ofName "digraph", .string options.graphName, sign '\x7b'] := by
    have hkeyword : Reads (ofString "digraph ") [ofName "digraph"] :=
      reads_of_readTokens (by decide +kernel)
    have hopen : Reads (ofString " \x7b") [sign '\x7b'] :=
      reads_of_readTokens (by decide +kernel)
    exact (hkeyword.append (reads_literal _)).append hopen
  have hgraph : Reads (ofString "  graph [rankdir=")
      [ofName "graph", sign '[', ofName "rankdir", sign '='] :=
    reads_of_readTokens (by decide +kernel)
  have hrankdir := (reads_font options.fontname).word (w := ofString options.rankdir.name)
    (by cases options.rankdir <;> decide) (by cases options.rankdir <;> decide) rfl
  have hnode : Reads (ofString "  node [shape=box, style=")
      [ofName "node", sign '[', ofName "shape", sign '=', ofName "box", sign ',',
        ofName "style", sign '='] :=
    reads_of_readTokens (by decide +kernel)
  have hfilled := (reads_font options.fontname).word (w := ofString "filled") (by decide)
    (by decide) rfl
  have hsplit : ofString "  node [shape=box, style=filled" =
      ofString "  node [shape=box, style=" ++ ofString "filled" :=
    rfl
  have hlines := hname.unlines_cons ((hgraph.append hrankdir).unlines_cons
    ((hnode.append hfilled).unlines_cons reads_unlines_nil))
  rw [headLines, WideText.ofString_append, hsplit, List.append_assoc, List.append_assoc]
  exact hlines

theorem reads_opening (level : Nat) {decl : ClusterDecl} (h : IsName clusterLetters decl.id)
    {lines : List WideText} {tokens : List Token} (hlines : Reads (unlines lines) tokens) :
    Reads (unlines (openingLines level decl ++ lines)) (openingTokens decl ++ tokens) := by
  have hlabel : Reads (ofString "  label=") [ofName "label", sign '='] :=
    reads_of_readTokens (by decide +kernel)
  have hend : Reads (ofString ";") [sign ';'] :=
    reads_of_readTokens (by decide +kernel)
  have hstyle : Reads (ofString "  style=dashed;")
      [ofName "style", sign '=', ofName "dashed", sign ';'] :=
    reads_of_readTokens (by decide +kernel)
  have hpad := reads_pad level
  have hline := ((hpad.append hlabel).append (reads_literal (ofString decl.label))).append hend
  exact (hpad.append (reads_subgraph h)).unlines_cons
    (hline.unlines_cons ((hpad.append hstyle).unlines_cons hlines))

mutual

/-- The reader finds a declaration, whatever stands in its labels. -/
theorem reads_item (level : Nat) : {item : Item} → item.Named →
    Reads (unlines (itemLines true level item)) (itemTokens item)
  | .node decl, h => ((reads_pad level).append (reads_nodeLine h)).unlines_cons reads_unlines_nil
  | .cluster decl items, h => by
    have hclose : Reads (ofString "\x7d") [sign '\x7d'] :=
      reads_of_readTokens (by decide +kernel)
    have hend := ((reads_pad level).append hclose).unlines_cons reads_unlines_nil
    have hitems : Reads (unlines (itemsLines true (level + 1) items)) (itemsTokens items) :=
      reads_items (level + 1) h.2
    have hbehind := hitems.append hend
    rw [← unlines_append] at hbehind
    rw [itemLines_cluster, List.append_assoc, itemTokens, List.append_assoc]
    exact reads_opening level h.1 hbehind

theorem reads_items (level : Nat) : {items : List Item} → Item.NamedAll items →
    Reads (unlines (itemsLines true level items)) (itemsTokens items)
  | [], _ => reads_unlines_nil
  | item :: items, h => by
    rw [itemsLines, unlines_append]
    exact (reads_item level h.1).append (reads_items level h.2)

end

/-! ### Brackets and arrows -/

/-- Each opening bracket has its closing bracket. -/
inductive Balanced : List Token → Prop
  | nil : Balanced []
  | other {token : Token} {tokens : List Token} : token ≠ sign '\x7b' → token ≠ sign '\x7d' →
      Balanced tokens → Balanced (token :: tokens)
  | block {inside behind : List Token} : Balanced inside → Balanced behind →
      Balanced (sign '\x7b' :: inside ++ sign '\x7d' :: behind)

theorem Balanced.append {xs ys : List Token} (hx : Balanced xs) (hy : Balanced ys) :
    Balanced (xs ++ ys) := by
  induction hx with
  | nil => exact hy
  | other hopen hclose _ ih => exact .other hopen hclose ih
  | block hinside _ _ ih =>
    rw [List.append_assoc, List.cons_append]
    exact .block hinside ih

theorem balanced_of_forall {tokens : List Token}
    (h : ∀ token ∈ tokens, token ≠ sign '\x7b' ∧ token ≠ sign '\x7d') : Balanced tokens := by
  induction tokens with
  | nil => exact .nil
  | cons token tokens ih =>
    obtain ⟨hopen, hclose⟩ := h token (by simp)
    exact .other hopen hclose (ih fun t ht => h t (by simp [ht]))

mutual

theorem balanced_itemTokens : (item : Item) → Balanced (itemTokens item)
  | .node decl => balanced_of_forall (by simp [itemTokens, nodeTokens])
  | .cluster decl items => by
    have hlabel : Balanced [ofName "label", sign '=', .string (ofString decl.label), sign ';',
        ofName "style", sign '=', ofName "dashed", sign ';'] :=
      balanced_of_forall (by simp)
    have hblock := Balanced.block (hlabel.append (balanced_itemsTokens items)) .nil
    have hkeyword : Balanced [ofName "subgraph", ofName decl.id] :=
      balanced_of_forall (by simp)
    exact hkeyword.append hblock

/-- Each cluster that is opened among the declarations is closed among them. -/
theorem balanced_itemsTokens : (items : List Item) → Balanced (itemsTokens items)
  | [] => .nil
  | item :: items => (balanced_itemTokens item).append (balanced_itemsTokens items)

end

theorem ne_arrow_of_isName {letters : List Char} {name : String} (h : IsName letters name)
    (hletters : '-' ∉ letters) : name ≠ "->" := by
  rintro rfl
  have hmem : .char '-' ∈ ofString "->" := by decide
  exact h.notMem hletters rfl hmem

mutual

theorem arrow_notMem_itemTokens : {item : Item} → item.Named → ofName "->" ∉ itemTokens item
  | .node decl, h => by
    have hid := ne_arrow_of_isName h (by decide)
    simp [itemTokens, nodeTokens, hid.symm]
  | .cluster decl items, h => by
    have hid := ne_arrow_of_isName h.1 (by decide)
    have hitems := arrow_notMem_itemsTokens h.2
    simp [itemTokens, openingTokens, hid.symm, hitems]

theorem arrow_notMem_itemsTokens : {items : List Item} → Item.NamedAll items →
    ofName "->" ∉ itemsTokens items
  | [], _ => List.not_mem_nil
  | item :: items, h => by
    rw [itemsTokens, List.mem_append, not_or]
    exact ⟨arrow_notMem_itemTokens h.1, arrow_notMem_itemsTokens h.2⟩

end

theorem arrow_notMem_headTokens (options : DotOptions) : ofName "->" ∉ headTokens options := by
  have hrankdir : options.rankdir.name ≠ "->" := by cases options.rankdir <;> decide
  simp [headTokens, hrankdir.symm]

/-! ### Whole drawings -/

theorem Reads.readTokens_eq {text : WideText} {tokens : List Token} (h : Reads text tokens) :
    readTokens text = some tokens := by
  have hread := h []
  rw [List.append_nil] at hread
  rw [hread, readTokens, Option.map_some, List.append_nil]

theorem reads_edgesText {edges : List (String × String)} (h : EdgesNamed edges) :
    Reads (edgesText edges) (edges.flatMap edgeTokens ++ [sign '\x7d']) := by
  induction edges with
  | nil =>
    have hclose : Reads (ofString "\x7d") [sign '\x7d'] :=
      reads_of_readTokens (by decide +kernel)
    exact hclose.unlines_cons reads_unlines_nil
  | cons edge edges ih =>
    obtain ⟨hsource, htarget⟩ := h edge (by simp)
    rw [List.flatMap_cons, List.append_assoc]
    exact (reads_edgeLine hsource htarget).unlines_cons (ih fun e he => h e (by simp [he]))

/-- The reader finds the lines before all declarations, the declarations, and then the edges. -/
theorem readTokens_dot {g : Graph} (h : g.Named) (options : DotOptions) :
    readTokens (g.dot options) = some (headTokens options ++
      (itemsTokens (g.drawn options.clusters).items ++
        (g.edges.flatMap edgeTokens ++ [sign '\x7d']))) := by
  rw [g.dot_eq options]
  have hitems := reads_items 1 (h.drawn options.clusters).items
  exact ((reads_headLines options).append (hitems.append (reads_edgesText h.edges))).readTokens_eq

end Dot

namespace Graph

open Dot

/-- The text of a drawing tells how it is presented. -/
theorem options_eq_of_dot_eq {g h : Graph} (hg : g.Named) (hh : h.Named) {o p : DotOptions}
    (hclusters : o.clusters = p.clusters) (htext : g.dot o = h.dot p) : o = p := by
  have htokens := readTokens_dot hg o
  rw [htext, readTokens_dot hh p] at htokens
  simp only [headTokens, Option.some.injEq, List.cons_append, List.cons.injEq, Token.string.injEq,
    Token.ofName_inj, true_and] at htokens
  obtain ⟨hname, hrankdir, hfont, -⟩ := htokens
  cases o
  cases p
  cases hname
  cases hfont
  cases hclusters
  cases RankDir.name_injective hrankdir
  rfl

/-- Drawings with the same text are presented in the same way, have the same edges, and have
items that differ in the kinds of forms only. A reader finds every text that has been quoted,
whatever follows it, and in a drawing each cluster that is opened is closed before the first edge,
behind which nothing is declared. -/
theorem dot_unambiguous {g h : Graph} (hg : g.Named) (hh : h.Named) {o p : DotOptions}
    (ho : o.clusters = true) (hp : p.clusters = true) :
    (g.dot o = h.dot p →
      (o.graphName = p.graphName ∧ o.rankdir = p.rankdir ∧ o.fontname = p.fontname) ∧
        g.edges = h.edges ∧ Item.AlikeAll g.items h.items) ∧
      (∀ t rest, ∃ behind, literal t ++ rest = .char '"' :: behind ∧
        readString false behind = some (t, rest)) ∧
      readTokens (g.dot o) = some (headTokens o ++ (itemsTokens g.items ++
        (g.edges.flatMap edgeTokens ++ [.sign '\x7d']))) ∧
      Balanced (itemsTokens g.items) ∧
      .ofName "->" ∉ headTokens o ++ itemsTokens g.items := by
  refine ⟨fun htext => ?_, fun t rest => ?_, ?_, balanced_itemsTokens g.items, ?_⟩
  · cases options_eq_of_dot_eq hg hh (ho.trans hp.symm) htext
    obtain ⟨hitems, hedges⟩ := alike_of_dot_eq hg hh htext
    rw [ho] at hitems
    exact ⟨⟨rfl, rfl, rfl⟩, hedges, hitems⟩
  · refine ⟨t.flatMap escapedPoint ++ .char '"' :: rest, ?_, readString_escaped t rest⟩
    simp [literal]
  · have hread := readTokens_dot hg o
    rwa [ho] at hread
  · rw [List.mem_append, not_or]
    exact ⟨arrow_notMem_headTokens o, arrow_notMem_itemsTokens hg.items⟩

/-- A label that looks like the end of its string, an edge and a cluster is read as a label. -/
theorem dot_unambiguous_of_quotes :
    let drawing (kind : River.Kind) : Graph :=
      ⟨[.node ⟨"n0", "\"];\n  n1 -> n0; subgraph \x7b \\", kind, "\\\""⟩,
        .cluster ⟨"cluster_0", "\x7d", kind⟩ [.node ⟨"n1", "", kind, ""⟩]], [("n0", "n1")]⟩
    (drawing .bits).dot = (drawing (.wrap .rev)).dot ∧
      Item.AlikeAll (drawing .bits).items (drawing (.wrap .rev)).items ∧
      readTokens (drawing .bits).dot = some (headTokens {} ++ (itemsTokens (drawing .bits).items ++
        [.ofName "n0", .ofName "->", .ofName "n1", .sign ';', .sign '\x7d'])) := by
  intro drawing
  have hnamed : ∀ kind, (drawing kind).Named := by
    intro kind
    have hn0 : IsName nodeLetters "n0" := ⟨['0'], by simp, by decide⟩
    have hn1 : IsName nodeLetters "n1" := ⟨['1'], by simp, by decide⟩
    have hcluster : IsName clusterLetters "cluster_0" := ⟨['0'], by simp, by decide⟩
    exact ⟨⟨hn0, ⟨hcluster, hn1, trivial⟩, trivial⟩, List.forall_mem_singleton.2 ⟨hn0, hn1⟩⟩
  have htext : (drawing .bits).dot = (drawing (.wrap .rev)).dot := rfl
  obtain ⟨hsame, -, hread, -⟩ :=
    dot_unambiguous (hnamed .bits) (hnamed (.wrap .rev)) (o := {}) (p := {}) rfl rfl
  exact ⟨htext, (hsame htext).2.2, hread⟩

end Graph

end StreamTypes
