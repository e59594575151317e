import StreamTypes.Text.Quoted

/-!
# Values of the wrong sort

What the functions on nodes and types answer when they are given something that
is neither: a missing value, a number or a text.

## Main definitions

- `Foreign` — a value that is no node and no type
- `Misuse` — a function given such a value
-/

namespace StreamTypes

/-- A value that is no node and no type. -/
inductive Foreign where
  | missing
  | number (value : Int)
  | text (value : String)
  deriving DecidableEq, Repr

/-- How a value is shown in a message. -/
def Foreign.display : Foreign → String
  | .missing => "None"
  | .number value => toString value
  | .text value => Text.quoted value

/-- A function that was given a value of the wrong sort. -/
inductive Misuse where
  /-- The label of something that is no node was asked for. -/
  | label (value : Foreign)
  /-- The color of something that is no kind was asked for. -/
  | color (value : Foreign)
  | node (value : Foreign)
  | data (value : Foreign)
  deriving DecidableEq, Repr

/-- A misuse in words. -/
def Misuse.message : Misuse → String
  | .label value => "No label for node " ++ value.display
  | .color value => "No fill color for variant " ++ value.display
  | .node value => "Not a River node: " ++ value.display
  | .data value => "Not a Data type: " ++ value.display

end StreamTypes
