import StreamTypes.Proofs.CommandLine.Outcomes
import StreamTypes.Proofs.CommandLine.Request
import StreamTypes.Proofs.Config.Loading
import StreamTypes.Proofs.Yaml.Keys

/-!
# Runs and their settings

Before a command is carried out its settings are loaded, from a file that is given or from the one
of the working directory. A file that is rejected is reported, and nothing else is done. A file that
loading does not answer for stops the run with a fault.

## Main definitions

- `configFile` — the file with the settings of a run
- `settings` — what is loaded from it

## Main statements

- `run_program` — a run is the command's, under the settings
- `settings_reported_exactly` — which files are loaded or reported
-/

namespace StreamTypes.CommandLine

/-- The configuration file of a run and what reading it yields. -/
def configFile (home : Path) (files : FileTree) (given : Option String) :
    Option (Path × Except FileFault (List UInt8)) :=
  match given with
  | some text => some (.ofString text, files.read (.ofString text))
  | none =>
    let path := home.child Config.fileName
    if files.isFile path then some (path, files.read path) else none

/-- The settings of a run, which are the standard ones if there is no file. -/
def settings (load : Yaml.Loader) (home : Path) (files : FileTree) (given : Option String) :
    Except LoadFault Config :=
  match configFile home files given with
  | some (path, contents) => Config.ofFile? load path contents
  | none => .ok {}

variable {load : Yaml.Loader} {home : Path} {w : World} {args : List String} {given : Option String}
  {command : Command} {limit : Nat}

theorem settings_eq_ofText? {files : FileTree} {path : Path} {text : String}
    (hfile : configFile home files given = some (path, .ok (Text.Utf8.encode text))) :
    settings load home files given =
      Config.ofText? load path.text (Config.unified text) := by
  simp only [settings, hfile, Config.ofFile?, Text.Utf8.decode?_eq_ok_iff.2 rfl, Config.unified]

theorem run_withConfig (next : Config → Script) :
    (withConfig load home (given.map .value) next).run w =
      (whenLoaded (settings load home w.files given) next).run w := by
  cases given with
  | some text => simp [withConfig, settings, configFile]
  | none =>
    by_cases hfound : w.files.isFile (home.child Config.fileName) = true
    · simp [withConfig, settings, configFile, hfound]
    · simp [withConfig, settings, configFile, hfound, whenLoaded]

/-- A run is that of its command, under the settings that are loaded. -/
theorem run_program (hargs : Invocation.ofArgs? args = .ok ⟨given.map .value, some command⟩) :
    (program load home args limit).run w =
      (whenLoaded (settings load home w.files given)
        fun config => command.script config limit).run w := by
  rw [program, hargs]
  exact run_withConfig _

theorem run_program_of_rejected
    (hargs : Invocation.ofArgs? args = .ok ⟨given.map .value, some command⟩) {error : ConfigError}
    (h : settings load home w.files given = .error (.rejected error)) :
    (program load home args limit).run w =
      ⟨.ok 1, [], "Error: " ++ error.message ++ "\n", w.files, []⟩ := by
  simp [run_program hargs, h, whenLoaded]

theorem run_program_of_fault
    (hargs : Invocation.ofArgs? args = .ok ⟨given.map .value, some command⟩) {fault : LoadFault}
    (h : settings load home w.files given = .error fault)
    (hfault : ∀ error, fault ≠ .rejected error) :
    (program load home args limit).run w = ⟨.error (.load fault), [], "", w.files, []⟩ := by
  rw [run_program hargs, h]
  cases fault with
  | rejected error => exact absurd rfl (hfault error)
  | _ => simp [whenLoaded]

theorem run_program_of_config
    (hargs : Invocation.ofArgs? args = .ok ⟨given.map .value, some command⟩) {config : Config}
    (h : settings load home w.files given = .ok config) :
    (program load home args limit).run w = (command.script config limit).run w := by
  rw [run_program hargs, h, whenLoaded]

/-- A run is stopped by a fault of its settings if loading does not answer for them. -/
theorem exit_eq_load_iff
    (hargs : Invocation.ofArgs? args = .ok ⟨given.map .value, some command⟩) :
    (∃ fault, ((program load home args limit).run w).exit = .error (.load fault)) ↔
      ¬ Config.Answered (settings load home w.files given) := by
  constructor
  · rintro ⟨fault, hfault⟩ (⟨config, h⟩ | ⟨error, h⟩)
    · rw [run_program_of_config hargs h] at hfault
      exact command.exit_ne_load fault hfault
    · rw [run_program_of_rejected hargs h] at hfault
      cases hfault
  · intro hnot
    cases h : settings load home w.files given with
    | ok config => exact absurd (h ▸ Config.answered_ok config) hnot
    | error fault =>
      rw [h, Config.answered_error_iff, not_exists] at hnot
      exact ⟨fault, by rw [run_program_of_fault hargs h hnot]⟩

/-- A loader answers for each text of a file: it finds a value, or that the text is not YAML. Then
loading the file ends with settings or with the error that says so for exactly the files it can
answer for. A run with a file that is rejected reports the error and does nothing else, and a run
with a file that loading cannot answer for is stopped by a fault. -/
theorem settings_reported_exactly (load : Yaml.Loader) (path : Path)
    (contents : Except FileFault (List UInt8))
    (hload : ∀ text, contents = .ok (Text.Utf8.encode text) →
      load.Answers (Config.unified text)) :
    ((∃ config, Config.ofFile? load path contents = .ok config) ∨
        (∃ error, Config.ofFile? load path contents = .error (.rejected error)) ↔
      Config.Loadable load contents) ∧
    ∀ home w args given command limit,
      Invocation.ofArgs? args = .ok ⟨given.map .value, some command⟩ →
      configFile home w.files given = some (path, contents) →
      (∀ error, Config.ofFile? load path contents = .error (.rejected error) →
        (program load home args limit).run w =
          ⟨.ok 1, [], "Error: " ++ error.message ++ "\n", w.files, []⟩) ∧
      ((∃ fault, ((program load home args limit).run w).exit = .error (.load fault)) ↔
        ¬ Config.Loadable load contents) := by
  have hanswered : Config.Answered (Config.ofFile? load path contents) ↔
      Config.Loadable load contents :=
    Config.answered_ofFile?_iff hload
  refine ⟨hanswered, fun home w args given command limit hargs hfile => ?_⟩
  have hsettings : settings load home w.files given = Config.ofFile? load path contents := by
    rw [settings, hfile]
  refine ⟨fun error herror => run_program_of_rejected hargs (hsettings.trans herror), ?_⟩
  rw [← hanswered, ← hsettings]
  exact exit_eq_load_iff hargs

/-- The loader for configurations answers for the texts that are loaded or rejected. -/
theorem answers_of_answered {label text : String}
    (h : Config.Answered (Config.ofText? Yaml.load label text)) : Yaml.load.Answers text := by
  refine Yaml.answers_load fun fault hfault => ?_
  have hstopped : Config.ofText? Yaml.load label text = .error (.valueless fault) := by
    simp only [Config.ofText?, hfault]
  rw [hstopped, Config.answered_error_iff] at h
  obtain ⟨error, herror⟩ := h
  cases herror

/-- The file that is given asks for no levels at all. -/
theorem settings_reported_exactly_of_depth :
    (program Yaml.load ⟨"/", []⟩ ["--config", "c.yaml", "parse", "Bits<1>"]).run
        ⟨⟨[(["c.yaml"], .file (Text.Utf8.encode "max-depth: 0\n"))], [], []⟩, "", .bytes⟩ =
      ⟨.ok 1, [], "Error: c.yaml: 'max-depth' must be at least 1\n",
        ⟨[(["c.yaml"], .file (Text.Utf8.encode "max-depth: 0\n"))], [], []⟩, []⟩ := by
  have hargs : Invocation.ofArgs? (["--config", "c.yaml"] ++ ["parse", "Bits<1>"]) =
      .ok ⟨(some "c.yaml").map .value, some (.parse { expression := "Bits<1>" })⟩ :=
    Invocation.ofArgs?_command (.apart (by decide)) (by decide) (by decide)
      (Command.ofWords?_parse (by decide))
  have hfile : configFile ⟨"/", []⟩
      ⟨[(["c.yaml"], .file (Text.Utf8.encode "max-depth: 0\n"))], [], []⟩ (some "c.yaml") =
        some (.ofString "c.yaml", .ok (Text.Utf8.encode "max-depth: 0\n")) := by
    rfl
  have hrejected : Config.ofText? Yaml.load "c.yaml" (Config.unified "max-depth: 0\n") =
      .error (.rejected (.settings "c.yaml" .depthRange)) := by
    decide +kernel
  have hload (text : String)
      (htext : Except.ok (ε := FileFault) (Text.Utf8.encode "max-depth: 0\n") =
        .ok (Text.Utf8.encode text)) : Yaml.load.Answers (Config.unified text) := by
    rw [← Text.Utf8.encode_injective (Except.ok.inj htext)]
    exact answers_of_answered (hrejected ▸ Config.answered_error_iff.2 ⟨_, rfl⟩)
  refine ((settings_reported_exactly Yaml.load _ _ hload).2 ⟨"/", []⟩ ⟨_, "", .bytes⟩ _ _ _
    Peg.defaultLimit hargs hfile).1 (.settings "c.yaml" .depthRange) ?_
  rw [Config.ofFile?, Text.Utf8.decode?_eq_ok_iff.2 rfl]
  exact hrejected

/-- A byte that begins no character: the file is not rejected, and the run is stopped. -/
theorem not_settings_reported :
    Config.ofFile? Yaml.load (.ofString "c.yaml") (.ok [0xFF]) =
        .error (.notText ⟨0, 0xFF, 0, .start⟩) ∧
      (program Yaml.load ⟨"/", []⟩ ["parse", "Bits<1>"]).run
          ⟨⟨[([".rivertype.yaml"], .file [0xFF])], [], []⟩, "", .bytes⟩ =
        ⟨.error (.load (.notText ⟨0, 0xFF, 0, .start⟩)), [], "",
          ⟨[([".rivertype.yaml"], .file [0xFF])], [], []⟩, []⟩ := by
  have hload (path : Path) :
      Config.ofFile? Yaml.load path (.ok [0xFF]) = .error (.notText ⟨0, 0xFF, 0, .start⟩) := by
    have hdecode : Text.Utf8.decode? [0xFF] = .error ⟨0, 0xFF, 0, .start⟩ := by
      rw [Text.Utf8.decode?, Text.Utf8.decodeFrom?]
      rfl
    rw [Config.ofFile?, hdecode]
  have hargs : Invocation.ofArgs? ([] ++ ["parse", "Bits<1>"]) =
      .ok ⟨(none : Option String).map .value, some (.parse { expression := "Bits<1>" })⟩ :=
    Invocation.ofArgs?_command .nothing (by decide) (by decide) (Command.ofWords?_parse (by decide))
  have hfile : configFile ⟨"/", []⟩ ⟨[([".rivertype.yaml"], .file [0xFF])], [], []⟩ none =
      some (.child ⟨"/", []⟩ Config.fileName, .ok [0xFF]) := by
    rfl
  have hsettings :
      settings Yaml.load ⟨"/", []⟩ ⟨[([".rivertype.yaml"], .file [0xFF])], [], []⟩ none =
        .error (.notText ⟨0, 0xFF, 0, .start⟩) := by
    rw [settings, hfile]
    exact hload _
  exact ⟨hload _, run_program_of_fault hargs hsettings (by simp)⟩

end StreamTypes.CommandLine
