import StreamTypes.CommandLine.Invocation

/-!
# The request of a command line

A word that does not begin with a dash is an operand wherever it stands, and so is a
single dash. A command line of the option for the configuration file, a command and one
operand is therefore read as a request for the command, with all other settings as they
are when nothing is said about them.

## Main definitions

- `Plain` — a word that is always an operand
- `Names` — words that name a configuration file, or none

## Main statements

- `Grammar.read?_word` — a single operand
- `Invocation.ofArgs?_command` — a command line with one operand
-/

namespace StreamTypes.CommandLine

/-- A word that is an operand wherever it stands. -/
def Plain (word : String) : Prop :=
  word.toList.head? ≠ some '-' ∨ word = "-"

instance (word : String) : Decidable (Plain word) :=
  inferInstanceAs (Decidable (_ ∨ _))

/-- Words in front of a command that name a configuration file, or no words. -/
inductive Names : List String → Option (Given String) → Prop
  | nothing : Names [] none
  | joined (path : String) : Names ["--config=" ++ path] (some (.ofText path))
  | apart {path : String} : Plain path → Names ["--config", path] (some (.value path))

section

variable {σ : Type} {switches : List (Switch σ)} {word : String}

theorem Plain.ne_dashes (h : Plain word) : word ≠ "--" := by
  rintro rfl
  revert h
  decide

theorem Plain.ofText? (h : Plain word) : Word.ofText? switches word = .ok (.operand word) := by
  have hoperand : (word.toList.head? ≠ some '-' || word.toList.length = 1) = true := by
    rcases h with h | rfl
    · simp [h]
    · decide
  rw [Word.ofText?]
  exact if_pos hoperand

theorem ofArgs?_plain {words : List String} (h : ∀ word ∈ words, Plain word) :
    Word.ofArgs? switches words = .ok (words.map .operand, none) := by
  induction words with
  | nil => rfl
  | cons word words ih =>
    have hword := h word List.mem_cons_self
    rw [Word.ofArgs?, if_neg hword.ne_dashes, hword.ofText?,
      ih fun w hw => h w (List.mem_cons_of_mem word hw)]
    rfl

/-- A single operand is the operand of the command. -/
theorem Grammar.read?_word {g : Grammar σ} {name : String} {set : String → σ → σ}
    (hoperand : g.operand = .word name set) (h : Plain word) (start : σ) :
    g.read? start [word] = .ok (set word start, []) := by
  rw [Grammar.read?, ofArgs?_plain (by simpa using h)]
  simp only [List.map_cons, List.map_nil, readWords, hoperand]
  rfl

theorem Command.ofWords?_parse (h : Plain word) :
    Command.ofWords? ["parse", word] = .ok (.parse { expression := word }, []) := by
  rw [Command.ofWords?, if_pos rfl, Grammar.read?_word rfl h]
  rfl

end

/-- The option for the configuration file. -/
def configSwitch : Switch (Invocation × List String) :=
  ⟨["--config"], .value fun given (r, extras) => .ok ({ r with config := some given }, extras)⟩

/-- No option has an equals sign in its name. -/
theorem find?_config (path : String) :
    Switch.find? programGrammar.switches ("--config=" ++ path) = none := by
  have hnames : ∀ entry ∈ Switch.named programGrammar.switches,
      ¬ decide (entry.1 = "--config=" ++ path) = true := by
    intro entry hentry heq
    have hname : ∀ name ∈ (Switch.named programGrammar.switches).map Prod.fst,
        '=' ∉ name.toList := by decide
    refine hname entry.1 (List.mem_map_of_mem hentry) ?_
    simp [of_decide_eq_true heq]
  rw [Switch.find?, List.find?_eq_none.2 hnames, Option.map_none]

theorem splitValue_config (path : String) :
    Word.splitValue ("--config=" ++ path).toList = ("--config", some path) := by
  have h : ("--config=" ++ path).toList = "--config".toList ++ '=' :: path.toList := by simp
  rw [Word.splitValue, h]
  simp

theorem ofText?_config (path : String) :
    Word.ofText? programGrammar.switches ("--config=" ++ path) =
      .ok (.switch ("--config=" ++ path) configSwitch "--config" (some path)) := by
  have hnamed : Word.named? programGrammar.switches ("--config=" ++ path) =
      some ("--config", configSwitch, some path) := by
    rw [Word.named?, find?_config, splitValue_config]
    rfl
  rw [Word.ofText?, hnamed]
  simp

section

variable (path : String) (words : List (Word (Invocation × List String)))

theorem readWords_joined :
    programGrammar.readWords none
        (.switch ("--config=" ++ path) configSwitch "--config" (some path) :: words)
        ⟨({}, []), true, false, none, []⟩ =
      programGrammar.readWords none words
        ⟨({ config := some (.ofText path) }, []), true, false, none, []⟩ := by
  have hvalue : configSwitch.takesValue = true := rfl
  have hcluster : programGrammar.cluster? configSwitch "--config" (some path) =
      .ok ⟨[], some (configSwitch, some path)⟩ := by
    rw [Grammar.cluster?, Grammar.together, if_pos hvalue, String.ofList_toList]
    rfl
  simp only [Grammar.readWords, hcluster]
  rfl

theorem readWords_apart :
    programGrammar.readWords none
        (.switch "--config" configSwitch "--config" none :: .operand path :: words)
        ⟨({}, []), true, false, none, []⟩ =
      programGrammar.readWords none words
        ⟨({ config := some (.ofText path) }, []), true, false, none, []⟩ :=
  rfl

end

section

variable {words : List String} {given : Option (Given String)} {name word : String}
  {command : Command} {invocation : Invocation}

/-- The command and its operand come last. -/
theorem readWords_command (hcommand : Command.ofWords? [name, word] = .ok (command, [])) :
    programGrammar.readWords none [.operand name, .operand word]
        ⟨({ config := given }, []), true, false, none, []⟩ =
      .ok ⟨(⟨given, some command⟩, []), false, false, none, []⟩ := by
  simp only [Grammar.readWords, programGrammar, List.map_cons, List.map_nil, Word.text,
    Option.map_none, Option.getD_none, List.append_nil, hcommand]
  rfl

theorem Invocation.ofArgs?_of_readWords {meanings : List (Word (Invocation × List String))}
    (hwords : Word.ofArgs? programGrammar.switches words = .ok (meanings, none))
    (hread : programGrammar.readWords none meanings ⟨({}, []), true, false, none, []⟩ =
      .ok ⟨(invocation, []), false, false, none, []⟩) :
    Invocation.ofArgs? words = .ok invocation := by
  rw [Invocation.ofArgs?, Grammar.read?, hwords]
  simp only [hread]
  rfl

/-- A command and one operand are requested with the options as they are by default,
whichever way the configuration file is named. -/
theorem Invocation.ofArgs?_command (hwords : Names words given) (hname : Plain name)
    (hword : Plain word) (hcommand : Command.ofWords? [name, word] = .ok (command, [])) :
    Invocation.ofArgs? (words ++ [name, word]) = .ok ⟨given, some command⟩ := by
  have hplain : ∀ w ∈ [name, word], Plain w := by simp [hname, hword]
  cases hwords with
  | nothing => exact ofArgs?_of_readWords (ofArgs?_plain hplain) (readWords_command hcommand)
  | joined path =>
    have hdashes : "--config=" ++ path ≠ "--" := by
      intro h
      have hlength : "--config=".length + path.length = "--".length := by
        rw [← String.length_append, h]
      simp only [show "--config=".length = 9 from rfl, show "--".length = 2 from rfl] at hlength
      omega
    refine ofArgs?_of_readWords ?_ ((readWords_joined path _).trans (readWords_command hcommand))
    rw [List.singleton_append, Word.ofArgs?, if_neg hdashes, ofText?_config, ofArgs?_plain hplain]
    rfl
  | @apart path hpath =>
    have hread := (readWords_apart path _).trans (readWords_command hcommand)
    rw [Given.ofText, if_neg hpath.ne_dashes] at hread
    refine ofArgs?_of_readWords ?_ hread
    have hrest : ∀ w ∈ [path, name, word], Plain w := by simp [hpath, hname, hword]
    rw [List.cons_append, List.singleton_append, Word.ofArgs?, if_neg (by decide),
      ofArgs?_plain hrest]
    rfl

end

end StreamTypes.CommandLine
