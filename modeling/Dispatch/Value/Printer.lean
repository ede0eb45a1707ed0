import Dispatch.Decimal.Layout
import Dispatch.Text.Quoted
import Dispatch.Value.Basic

/-!
# How values are shown

The text that descriptions and constants show for a value. Texts are quoted, numbers are written by
`numberLayout`, result lists stand in brackets, and functions and objects show only what they are
called.

In the runtime: the descriptions of `Value`, `MultiResult`, `Callable` and `HostObject`.
-/

namespace Dispatch

/-- Numbers are positional from 0.0001 up to, not including, ten to the sixteenth; a whole number
ends in `.0`. -/
def numberLayout : Decimal.Layout :=
  ⟨-4, 15, ".0", "NaN", "inf"⟩

mutual

def Value.render : Value → String
  | .nil => "nil"
  | .boolean b => if b then "true" else "false"
  | .integer i => toString i
  | .number x => numberLayout.write x
  | .text s => Text.quote s
  | .result _ values => "[" ++ ", ".intercalate (Value.renderAll values) ++ "]"
  | .callable c => "<function " ++ c.name ++ ">"
  | .object o => "<" ++ o.type.name ++ " object>"

def Value.renderAll : List Value → List String
  | [] => []
  | v :: vs => v.render :: Value.renderAll vs

end

/-- A function in full: its name, its type and how many parameters its routine has. -/
def Callable.render (c : Callable) : String :=
  "Callable \x7b name: " ++ Text.quote c.name ++ ", delegate: " ++ c.type.tag ++
    ", parameters: " ++ toString c.params.length ++ " \x7d"

/-- An object in full, as far as anyone but the host can see. -/
def Foreign.render (o : Foreign) : String :=
  "HostObject \x7b ty: " ++ o.type.tag ++ ", .. \x7d"

end Dispatch
