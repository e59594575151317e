import StreamTypes.Proofs.CommandLine.Settings
import StreamTypes.Proofs.Peg.Alphabet

/-!
# The mark below an expression

Below an expression that cannot be read a mark shows where reading stopped. An expression is printed
behind two blanks, and the mark is set off by two blanks more than the position has. So the mark is
right where the expression is a single line. Where it has several lines, only the first one is set
off, and the mark is below the last one, while reading always stops in the first one.

## Main definitions

- `lastLine` — the characters behind the last line feed
- `CaretUnder` — the mark is below the character at a position
- `Refuses` — why a command cannot read its expression

## Main statements

- `caretUnder_report_iff` — where the mark is
- `Refuses.reached` — reading stops in the first line
- `caret_exact` — for which runs the mark is right
-/

namespace StreamTypes.CommandLine

/-! ### Lines -/

/-- The characters behind the last line feed. -/
def lastLine (cs : List Char) : List Char :=
  (cs.splitOn '\n').getLast (List.splitOn_ne_nil _ _)

theorem splitOn_eq_append_lastLine (cs : List Char) :
    cs.splitOn '\n' = (cs.splitOn '\n').dropLast ++ [lastLine cs] :=
  (List.dropLast_append_getLast _).symm

theorem lastLine_of_notMem {cs : List Char} (h : '\n' ∉ cs) : lastLine cs = cs := by
  simp only [lastLine, List.splitOn_eq_singleton h, List.getLast_singleton]

theorem lastLine_append (cs cs' : List Char) : lastLine (cs ++ '\n' :: cs') = lastLine cs' := by
  simp only [lastLine, List.splitOn_append_cons_self]
  exact List.getLast_append_of_ne_nil _ (List.splitOn_ne_nil _ _)

/-- Characters in front of a text with several lines are not in the last one. -/
theorem lastLine_append_of_mem (before : List Char) {cs : List Char} (h : '\n' ∈ cs) :
    lastLine (before ++ cs) = lastLine cs := by
  obtain ⟨first, rest, rfl⟩ := List.append_of_mem h
  rw [← List.append_assoc, lastLine_append, lastLine_append]

/-- The last line of what is printed consists of blanks and a mark, and the character above the mark
is the one at a position of the source; behind the source there is none, and the mark is one column
behind the line above it. Behind the line of the mark there is a line feed. -/
def CaretUnder (printed : String) (source : List Char) (offset : Nat) : Prop :=
  ∃ before above column,
    printed.toList.splitOn '\n' = before ++ [above, List.replicate column ' ' ++ ['^'], []] ∧
      above[column]? = source[offset]? ∧ column ≤ above.length

theorem toList_report (source : String) (e : Peg.ParseError) : (report source e).toList =
    ("Error: " ++ e.message).toList ++ '\n' :: (' ' :: ' ' :: source.toList ++
      '\n' :: (List.replicate (e.offset + 2) ' ' ++ ['^'] ++ '\n' :: [])) := by
  simp [report, List.replicate_succ]

/-- The mark is below the last line of the source, two columns behind the position. -/
theorem caretUnder_report_iff {source : String} {e : Peg.ParseError} :
    CaretUnder (report source e) source.toList e.offset ↔
      (lastLine (' ' :: ' ' :: source.toList))[e.offset + 2]? = source.toList[e.offset]? ∧
        e.offset + 2 ≤ (lastLine (' ' :: ' ' :: source.toList)).length := by
  have hmark : '\n' ∉ List.replicate (e.offset + 2) ' ' ++ ['^'] := by simp
  have hlines : (report source e).toList.splitOn '\n' =
      (("Error: " ++ e.message).toList.splitOn '\n' ++
        ((' ' :: ' ' :: source.toList).splitOn '\n').dropLast) ++
        [lastLine (' ' :: ' ' :: source.toList), List.replicate (e.offset + 2) ' ' ++ ['^'],
          []] := by
    rw [toList_report, List.splitOn_append_cons_self, List.splitOn_append_cons_self,
      List.splitOn_append_cons_self, List.splitOn_eq_singleton hmark, List.splitOn_nil,
      splitOn_eq_append_lastLine (' ' :: ' ' :: source.toList)]
    simp
  constructor
  · rintro ⟨before, above, column, hprinted, habove⟩
    rw [hlines] at hprinted
    obtain ⟨-, hlast⟩ := List.append_inj' hprinted rfl
    simp only [List.cons.injEq, and_true] at hlast
    obtain ⟨rfl, hcolumn⟩ := hlast
    have hlength := congrArg List.length hcolumn
    simp only [List.length_append, List.length_replicate, List.length_singleton] at hlength
    obtain rfl : column = e.offset + 2 := by omega
    exact habove
  · exact fun habove => ⟨_, _, e.offset + 2, hlines, habove⟩

/-- Why a command cannot read its expression. -/
inductive Refuses (limit : Nat) (config : Config) (w : World) :
    Command → String → Peg.ParseError → Prop
  | data {r : ParseRequest} {e : Peg.ParseError} (hdata : r.data = true)
    (h : Data.parseWithin limit (sourceOf w r.expression) config.maxDepth = .error e) :
    Refuses limit config w (.parse r) (sourceOf w r.expression) e
  | river {r : ParseRequest} {e : Peg.ParseError} (hdata : r.data = false)
    (h : River.parseWithin limit (sourceOf w r.expression) config.maxDepth = .error (.parse e)) :
    Refuses limit config w (.parse r) (sourceOf w r.expression) e
  | dot {r : DotRequest} {e : Peg.ParseError} (hrankdir : r.rankdir ≠ some .blank)
    (h : River.parseWithin limit (sourceOf w r.expression) config.maxDepth = .error (.parse e)) :
    Refuses limit config w (.dot r) (sourceOf w r.expression) e

variable {limit : Nat} {config : Config} {w : World} {command : Command} {source : String}
  {e : Peg.ParseError}

theorem Refuses.run_script (h : Refuses limit config w command source e) :
    (command.script config limit).run w = ⟨.ok 1, [], report source e, w.files, []⟩ := by
  cases h with
  | @data r e hdata h =>
    have htext : r.text? (sourceOf w r.expression) config.maxDepth limit = .error (.parse e) := by
      simp [ParseRequest.text?, hdata, h]
    rw [Command.script, ParseRequest.script, run_withSource, htext, run_whenRead_error]
  | @river r e hdata h =>
    have htext : r.text? (sourceOf w r.expression) config.maxDepth limit = .error (.parse e) := by
      simp [ParseRequest.text?, hdata, h]
    rw [Command.script, ParseRequest.script, run_withSource, htext, run_whenRead_error]
  | @dot r e hrankdir h =>
    have hdot : render (sourceOf w r.expression) (r.chosen config.render) config.maxDepth limit =
        .error (.parse e) := by
      rw [render, trim_sourceOf, h]
    rw [Command.script, DotRequest.script, DotRequest.options?_of_ne_blank hrankdir,
      run_withSource, hdot, run_whenRead_error]

/-! ### Where reading stops -/

/-- All characters but the one between lines. -/
def inLine (c : Char) : Bool :=
  c ≠ '\n'

theorem hasDigitsAndGaps_inLine : Peg.HasDigitsAndGaps inLine where
  digit c hc := by
    rw [inLine, decide_eq_true_eq]
    rintro rfl
    cases hc
  gap c hc := by
    rw [inLine, decide_eq_true_eq]
    rintro rfl
    cases hc

theorem spells_riverRules {α : Type} (rule : River.Rule α) :
    (River.rules rule).spells inLine = true := by
  cases rule
  decide

theorem spells_dataRules {α : Type} (rule : Data.Rule α) :
    (Data.rules rule).spells inLine = true := by
  cases rule
  decide

theorem reached_ofString {source : String} {maxDepth : Int} {offset : Nat}
    (h : (Peg.Input.ofString source maxDepth).Reached inLine offset) :
    offset ≤ source.length ∧ '\n' ∉ source.toList.take offset := by
  obtain ⟨hle, hbefore⟩ := h
  rw [Peg.Input.size_ofString] at hle
  exact ⟨hle, fun hmem => absurd (hbefore '\n' hmem) (by decide)⟩

theorem reached_of_data {limit : Nat} {source : String} {maxDepth : Int} {e : Peg.ParseError}
    (h : Data.parseWithin limit source maxDepth = .error e)
    (hexhausted : ∀ offset, e ≠ .exhausted offset) :
    e.offset ≤ source.length ∧ '\n' ∉ source.toList.take e.offset := by
  rw [Data.parseWithin] at h
  cases hrun : Peg.run limit Data.rules (.ref .data) (.ofString source maxDepth) with
  | ok found =>
    rw [hrun] at h
    cases h
  | error e' =>
    rw [hrun] at h
    cases h
    exact reached_ofString
      (Peg.run_error_reached hasDigitsAndGaps_inLine spells_dataRules rfl hrun hexhausted)

theorem reached_of_river {limit : Nat} {source : String} {maxDepth : Int} {e : Peg.ParseError}
    (h : River.parseWithin limit source maxDepth = .error (.parse e))
    (hexhausted : ∀ offset, e ≠ .exhausted offset) :
    e.offset ≤ source.length ∧ '\n' ∉ source.toList.take e.offset := by
  rw [River.parseWithin] at h
  cases hrun : Peg.run limit River.rules (.ref .river) (.ofString source maxDepth) with
  | ok found =>
    rw [hrun] at h
    dsimp only at h
    split at h <;> cases h
  | error e' =>
    rw [hrun] at h
    cases h
    exact reached_ofString
      (Peg.run_error_reached hasDigitsAndGaps_inLine spells_riverRules rfl hrun hexhausted)

/-- Reading stops in the first line. -/
theorem Refuses.reached (h : Refuses limit config w command source e)
    (hexhausted : ∀ offset, e ≠ .exhausted offset) :
    e.offset ≤ source.length ∧ '\n' ∉ source.toList.take e.offset := by
  cases h with
  | data _ h => exact reached_of_data h hexhausted
  | river _ h => exact reached_of_river h hexhausted
  | dot _ h => exact reached_of_river h hexhausted

/-- Where reading stops in a single line the mark is right. In several lines it stops in the first
one, and the mark is right only if the last line has by chance the same character two columns
further on. -/
theorem caretUnder_iff {source : String} {e : Peg.ParseError}
    (hreached : e.offset ≤ source.length ∧ '\n' ∉ source.toList.take e.offset) :
    CaretUnder (report source e) source.toList e.offset ↔
      '\n' ∉ source.toList ∨
        (lastLine source.toList)[e.offset + 2]? = source.toList[e.offset]? := by
  obtain ⟨hle, hbefore⟩ := hreached
  rw [caretUnder_report_iff]
  by_cases hmem : '\n' ∈ source.toList
  · have hlast : lastLine (' ' :: ' ' :: source.toList) = lastLine source.toList :=
      lastLine_append_of_mem [' ', ' '] hmem
    have hlt : e.offset < source.toList.length := by
      by_contra hge
      rw [List.take_of_length_le (Nat.le_of_not_lt hge)] at hbefore
      exact hbefore hmem
    rw [hlast, or_iff_right (not_not_intro hmem)]
    refine and_iff_left_of_imp fun hsame => ?_
    -- The source goes on at the position, and so does the last line two columns further on.
    rw [List.getElem?_eq_getElem hlt] at hsame
    obtain ⟨hbound, -⟩ := List.getElem?_eq_some_iff.1 hsame
    omega
  · have hline : '\n' ∉ ' ' :: ' ' :: source.toList := by simp [hmem]
    rw [lastLine_of_notMem hline]
    refine iff_of_true ⟨rfl, ?_⟩ (.inl hmem)
    rw [← String.length_toList] at hle
    simpa using hle

/-- What is said about an expression that cannot be read ends with a mark below a line of it. For an
expression without line feeds it is below the character where reading stopped, or one column behind
the line if reading stopped at the end. Otherwise reading stops in the first line, and the mark is
right only if the last line has by chance the same character two columns further on. -/
theorem caret_exact {load : Yaml.Loader} {home : Path} {args : List String} {given : Option String}
    (hargs : Invocation.ofArgs? args = .ok ⟨given.map .value, some command⟩)
    (hsettings : settings load home w.files given = .ok config)
    (h : Refuses limit config w command source e)
    (hexhausted : ∀ offset, e ≠ .exhausted offset) :
    (program load home args limit).run w = ⟨.ok 1, [], report source e, w.files, []⟩ ∧
      e.offset ≤ source.length ∧ '\n' ∉ source.toList.take e.offset ∧
      (CaretUnder (report source e) source.toList e.offset ↔
        '\n' ∉ source.toList ∨
          (lastLine source.toList)[e.offset + 2]? = source.toList[e.offset]?) := by
  have hreached := h.reached hexhausted
  exact ⟨by rw [run_program_of_config hargs hsettings, h.run_script],
    hreached.1, hreached.2, caretUnder_iff hreached⟩

/-- Where reading the two texts below stops, and what is said about it. -/
theorem refused_at_letter : ∀ source ∈ ["Bits<x>", "Bits<x>\nBits<2>"],
    River.parseWithin 2 source 64 =
        .error (.parse (.unexpected 5 ["unsigned integer"] (some 'x'))) ∧
      report source (.unexpected 5 ["unsigned integer"] (some 'x')) =
        "Error: Column 6: Expected unsigned integer, got 'x'\n  " ++ source ++
          "\n       ^\n" := by
  decide +kernel

theorem caret_exact_of_letter :
    ((program Yaml.load ⟨"/", []⟩ ["parse", "Bits<x>"] 2).run
        ⟨⟨[], [], []⟩, "", .bytes⟩).complaints =
        "Error: Column 6: Expected unsigned integer, got 'x'\n  Bits<x>\n       ^\n" ∧
      CaretUnder "Error: Column 6: Expected unsigned integer, got 'x'\n  Bits<x>\n       ^\n"
        "Bits<x>".toList 5 := by
  let e : Peg.ParseError := .unexpected 5 ["unsigned integer"] (some 'x')
  have hargs : Invocation.ofArgs? ([] ++ ["parse", "Bits<x>"]) =
      .ok ⟨(none : Option String).map .value, some (.parse { expression := "Bits<x>" })⟩ :=
    Invocation.ofArgs?_command .nothing (by decide) (by decide) (Command.ofWords?_parse (by decide))
  have hsettings : settings Yaml.load ⟨"/", []⟩ ⟨[], [], []⟩ none = .ok {} := by rfl
  have hsource : sourceOf ⟨⟨[], [], []⟩, "", .bytes⟩ "Bits<x>" = "Bits<x>" := by decide
  obtain ⟨hparse, hreport⟩ := refused_at_letter "Bits<x>" (by simp)
  have hrefuses : Refuses 2 {} ⟨⟨[], [], []⟩, "", .bytes⟩ (.parse { expression := "Bits<x>" })
      "Bits<x>" e := by
    rw [← hsource]
    exact .river rfl (hsource ▸ hparse)
  obtain ⟨hrun, -, -, hcaret⟩ := caret_exact hargs hsettings hrefuses nofun
  rw [hreport] at hrun hcaret
  exact ⟨congrArg Outcome.complaints hrun, hcaret.2 (.inl (by decide))⟩

/-- The mark for an error in the first of two lines is behind the end of the second one. -/
theorem not_caretUnder_of_lines :
    (program Yaml.load ⟨"/", []⟩ ["parse", "-"] 2).run ⟨⟨[], [], []⟩, "Bits<x>\nBits<2>", .bytes⟩ =
        ⟨.ok 1, [],
          "Error: Column 6: Expected unsigned integer, got 'x'\n  Bits<x>\nBits<2>\n       ^\n",
          ⟨[], [], []⟩, []⟩ ∧
      ¬ CaretUnder
        "Error: Column 6: Expected unsigned integer, got 'x'\n  Bits<x>\nBits<2>\n       ^\n"
        "Bits<x>\nBits<2>".toList 5 := by
  let e : Peg.ParseError := .unexpected 5 ["unsigned integer"] (some 'x')
  have hargs : Invocation.ofArgs? ([] ++ ["parse", "-"]) =
      .ok ⟨(none : Option String).map .value, some (.parse { expression := "-" })⟩ :=
    Invocation.ofArgs?_command .nothing (by decide) (by decide) (Command.ofWords?_parse (by decide))
  have hsettings : settings Yaml.load ⟨"/", []⟩ ⟨[], [], []⟩ none = .ok {} := by rfl
  have hsource :
      sourceOf ⟨⟨[], [], []⟩, "Bits<x>\nBits<2>", .bytes⟩ "-" = "Bits<x>\nBits<2>" := by
    decide
  obtain ⟨hparse, hreport⟩ := refused_at_letter "Bits<x>\nBits<2>" (by simp)
  have hrefuses : Refuses 2 {} ⟨⟨[], [], []⟩, "Bits<x>\nBits<2>", .bytes⟩
      (.parse { expression := "-" }) "Bits<x>\nBits<2>" e := by
    rw [← hsource]
    exact .river rfl (hsource ▸ hparse)
  have hcaret : CaretUnder (report "Bits<x>\nBits<2>" e) "Bits<x>\nBits<2>".toList 5 ↔ _ :=
    caretUnder_iff (by decide)
  rw [hreport] at hcaret
  refine ⟨(run_program_of_config hargs hsettings).trans ?_,
    fun hunder => absurd (hcaret.1 hunder) (by decide)⟩
  rw [hrefuses.run_script, hreport]
  rfl

end StreamTypes.CommandLine
