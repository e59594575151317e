import StreamTypes.CommandLine.Program
import StreamTypes.Proofs.Dot.Surrogates
import StreamTypes.Proofs.River.CanonicalText
import StreamTypes.Proofs.Text.Blank

/-!
# What commands leave

A command reads its expression, and then it either prints a result, or writes it to a file, or
reports why the expression cannot be read. For each command it is said once what can be left, so
that properties of runs are read off these cases. A result is printed unless it holds a surrogate
and the output stores bytes; then the run is stopped.

## Main definitions

- `Output.Takes` — the texts that can be printed
- `sourceOf` — the expression that a command reads
- `DotRequest.chosen` — the settings under which a drawing is made

## Main statements

- `run_print_of_takes`, `run_print_of_not_takes` — what is left when a text is printed
- `ParseRequest.run_cases`, `DotRequest.run_cases`, `DotRequest.run_save_cases` — what is left
- `Command.exit_ne_load` — faults of the settings are not faults of a command
-/

namespace StreamTypes.CommandLine

open Text.Utf8 (HasSurrogate)

/-- The expression that a command reads for a word, without the blanks around it. -/
def sourceOf (w : World) (word : String) : String :=
  Text.trim (if word = "-" then w.input else word)

variable {w : World} {config : Config} {limit : Nat} {word : String}

/-! ### Printing -/

/-- A text can be printed: the output keeps texts, or there are bytes for this one. -/
def Output.Takes (output : Output) (text : WideText) : Prop :=
  output = .bytes → ¬ HasSurrogate text

theorem Output.takes_iff {output : Output} {text : WideText} :
    output.Takes text ↔ output.fault? text = none := by
  cases output with
  | texts => simp [Takes, fault?]
  | bytes =>
    rw [Takes, imp_iff_right rfl, Text.Utf8.hasSurrogate_iff_encode?, fault?]
    cases Text.Utf8.encode? text <;> simp

theorem Output.takes_ofString (output : Output) (s : String) : output.Takes (.ofString s) :=
  fun _ => Text.Utf8.not_hasSurrogate_ofString s

/-- A string is printed, whatever the output takes. -/
@[simp] theorem run_say (text : String) (next : Script) : (Script.say text next).run w =
    { next.run w with printed := .ofString text ++ (next.run w).printed } := by
  rw [Script.say, Script.run, Output.takes_iff.1 (w.output.takes_ofString text)]

theorem run_print_of_not_takes {text : WideText} (h : ¬ w.output.Takes text) :
    ∃ fault, (Script.print text (.stop 0)).run w =
      ⟨.error (.unencodable fault), [], "", w.files, []⟩ := by
  rw [Output.takes_iff, ← Ne, Option.ne_none_iff_exists'] at h
  obtain ⟨fault, hfault⟩ := h
  exact ⟨fault, by simp [hfault]⟩

/-! ### Reading an expression -/

@[simp] theorem trim_sourceOf (w : World) (word : String) :
    Text.trim (sourceOf w word) = sourceOf w word :=
  Text.trim_trim _

theorem run_withSource (next : String → Script) :
    (withSource word next).run w = (next (sourceOf w word)).run w := by
  by_cases hdash : word = "-"
  · rw [withSource, if_pos hdash, Script.run, sourceOf, if_pos hdash]
  · rw [withSource, if_neg hdash, sourceOf, if_neg hdash]

/-- An expression that cannot be read is reported, and nothing else is done. -/
theorem run_whenRead_error (source : String) (e : Peg.ParseError) {α : Type} (next : α → Script) :
    (whenRead source (.error (.parse e)) next).run w =
      ⟨.ok 1, [], report source e, w.files, []⟩ := by
  simp [whenRead]

/-! ### Printing an expression -/

theorem ParseRequest.text?_ne_shape (r : ParseRequest) (source : String) (maxDepth : Int)
    (e : River.ShapeError) : r.text? source maxDepth limit ≠ .error (.shape e) := by
  unfold text?
  split
  · split <;> simp
  · split
    · rename_i error hparse
      intro h
      cases h
      exact River.parseWithin_ne_shape _ _ _ _ hparse
    · simp

/-- The text of the expression is printed, or it is reported why there is none. -/
theorem ParseRequest.run_cases (r : ParseRequest) (config : Config) (limit : Nat) (w : World) :
    (∃ text, r.text? (sourceOf w r.expression) config.maxDepth limit = .ok text ∧
      (r.script config limit).run w = ⟨.ok 0, .ofString (text ++ "\n"), "", w.files, []⟩) ∨
    ∃ e, r.text? (sourceOf w r.expression) config.maxDepth limit = .error (.parse e) ∧
      (r.script config limit).run w =
        ⟨.ok 1, [], report (sourceOf w r.expression) e, w.files, []⟩ := by
  rw [script, run_withSource]
  cases htext : r.text? (sourceOf w r.expression) config.maxDepth limit with
  | ok text => exact .inl ⟨text, rfl, by simp [whenRead]⟩
  | error rejection =>
    cases rejection with
    | parse e => exact .inr ⟨e, rfl, run_whenRead_error _ e _⟩
    | shape e => exact absurd htext (r.text?_ne_shape _ _ e)

/-! ### Drawing an expression -/

namespace DotRequest

variable {r : DotRequest} {options : DotOptions}

/-- The presentation settings under which a drawing is made: the configured ones, in which the
request changes the direction and whether there are clusters. -/
def chosen (r : DotRequest) (standard : DotOptions) : DotOptions :=
  { standard with
    rankdir := match r.rankdir with
      | some (.value rankdir) => rankdir
      | _ => standard.rankdir
    clusters := standard.clusters && !r.noClusters }

theorem options?_of_ne_blank (h : r.rankdir ≠ some .blank) (standard : DotOptions) :
    r.options? standard = .ok (r.chosen standard) := by
  unfold options? chosen
  rcases hrankdir : r.rankdir with _ | _ | rankdir
  · rfl
  · exact absurd hrankdir h
  · rfl

theorem eq_blankDirection {standard : DotOptions} {fault : Crash}
    (h : r.options? standard = .error fault) : fault = .blankDirection := by
  unfold options? at h
  split at h <;> cases h
  rfl

theorem render_ne_shape (source : String) (options : DotOptions) (maxDepth : Int)
    (e : River.ShapeError) : render source options maxDepth limit ≠ .error (.shape e) := by
  unfold render
  split
  · rename_i error hparse
    intro h
    cases h
    exact River.parseWithin_ne_shape _ _ _ _ hparse
  · simp

/-- A drawing is printed, or it is handed on to be written. -/
theorem run_of_render (hoptions : r.options? config.render = .ok options) {dot : WideText}
    (hdot : render (sourceOf w r.expression) options config.maxDepth limit = .ok dot) :
    (r.script config limit).run w =
      match r.output with
      | none => (Script.print dot (.stop 0)).run w
      | some .blank => ⟨.error .blankPath, [], "", w.files, []⟩
      | some (.value output) => (save (.ofString output) dot).run w := by
  rw [script, hoptions]
  dsimp only
  rw [run_withSource, hdot, whenRead]
  rcases r.output with _ | _ | output <;> rfl

/-- The drawing is printed or handed on, or it is reported why there is none. -/
theorem run_cases (hoptions : r.options? config.render = .ok options) (limit : Nat) (w : World) :
    (∃ dot, render (sourceOf w r.expression) options config.maxDepth limit = .ok dot ∧
      (r.script config limit).run w =
        match r.output with
        | none => (Script.print dot (.stop 0)).run w
        | some .blank => ⟨.error .blankPath, [], "", w.files, []⟩
        | some (.value output) => (save (.ofString output) dot).run w) ∨
    ∃ e, render (sourceOf w r.expression) options config.maxDepth limit = .error (.parse e) ∧
      (r.script config limit).run w =
        ⟨.ok 1, [], report (sourceOf w r.expression) e, w.files, []⟩ := by
  cases hdot : render (sourceOf w r.expression) options config.maxDepth limit with
  | ok dot => exact .inl ⟨dot, rfl, run_of_render hoptions hdot⟩
  | error rejection =>
    cases rejection with
    | parse e =>
      refine .inr ⟨e, rfl, ?_⟩
      rw [script, hoptions]
      dsimp only
      rw [run_withSource, hdot, run_whenRead_error]
    | shape e => exact absurd hdot (render_ne_shape _ _ _ e)

/-- A drawing is written, or there are no bytes for it and the file is empty, or the file cannot be
written, whatever its contents. -/
theorem run_save_cases (path : Path) (dot : WideText) (w : World) :
    (∃ bytes files, Text.Utf8.encode? dot = .ok bytes ∧ w.files.write path bytes = .ok files ∧
      (save path dot).run w =
        ⟨.ok 0, .ofString ("Wrote graph to '" ++ path.text ++ "'.\n"), "", files, []⟩) ∨
    (∃ fault files, Text.Utf8.encode? dot = .error fault ∧ w.files.write path [] = .ok files ∧
      (save path dot).run w = ⟨.error (.unencodable fault), [], "", files, []⟩) ∨
    (∃ fault, w.files.write path ((Text.Utf8.encode? dot).toOption.getD []) = .error fault ∧
      (save path dot).run w =
        if fault = .nulInPath then ⟨.error .nulInPath, [], "", w.files, []⟩
        else ⟨.ok 1, [],
          "Error: cannot write '" ++ path.text ++ "': " ++ fault.message path ++ "\n",
          w.files, []⟩) := by
  rw [save]
  cases hbytes : Text.Utf8.encode? dot with
  | ok bytes =>
    cases hwrite : w.files.write path bytes with
    | ok files =>
      refine .inl ⟨bytes, files, rfl, hwrite, ?_⟩
      simp [Except.toOption, hwrite]
    | error fault =>
      refine .inr (.inr ⟨fault, by simpa [Except.toOption] using hwrite, ?_⟩)
      simp only [Script.run, Except.toOption, Option.getD_some, hwrite]
      cases fault <;> simp
  | error reason =>
    cases hwrite : w.files.write path [] with
    | ok files =>
      refine .inr (.inl ⟨reason, files, rfl, rfl, ?_⟩)
      simp [Except.toOption, hwrite]
    | error fault =>
      refine .inr (.inr ⟨fault, by simpa [Except.toOption] using hwrite, ?_⟩)
      simp only [Script.run, Except.toOption, Option.getD_none, hwrite]
      cases fault <;> simp

end DotRequest

/-- Faults of the settings are not faults of a command. -/
theorem Command.exit_ne_load (command : Command) (fault : LoadFault) :
    ((command.script config limit).run w).exit ≠ .error (.load fault) := by
  cases command with
  | parse request =>
    rw [script]
    obtain ⟨text, -, hrun⟩ | ⟨e, -, hrun⟩ := request.run_cases config limit w <;> simp [hrun]
  | dot request =>
    rw [script]
    cases hoptions : request.options? config.render with
    | error crash =>
      obtain rfl := DotRequest.eq_blankDirection hoptions
      simp [DotRequest.script, hoptions]
    | ok options =>
      obtain ⟨dot, -, hrun⟩ | ⟨e, -, hrun⟩ := DotRequest.run_cases hoptions limit w
      · rw [hrun]
        split
        · rw [Script.run]
          split <;> simp
        · simp
        · rename_i output _
          obtain ⟨_, _, -, -, hsave⟩ | ⟨_, _, -, -, hsave⟩ | ⟨_, -, hsave⟩ :=
            DotRequest.run_save_cases (.ofString output) dot w
          · simp [hsave]
          · simp [hsave]
          · rw [hsave]
            split <;> simp
      · simp [hrun]
  | serve request => simp [script, ServeRequest.script]

end StreamTypes.CommandLine
