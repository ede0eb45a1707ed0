import Dispatch.Fragment.Basic
import Dispatch.Value.Printer

/-!
# How fragments are shown

A fragment is shown as an expression over the operands `$0`, `$1`, and so on. `render` shows the
expression alone and `renderTyped` adds the name of the result type.

In the runtime: the descriptions of `Fragment`.
-/

namespace Dispatch.Fragment

mutual

def render : Fragment → String
  | constant v _ => v.render
  | zero t => "default(" ++ t.name ++ ")"
  | operand position _ => "$" ++ toString position
  | raise message _ => "raise(" ++ Text.quote message ++ ")"
  | host name args _ _ => name ++ "(" ++ ", ".intercalate (renderAll args) ++ ")"
  | invoke callee args _ =>
    "invoke " ++ callee.render ++ "(" ++ ", ".intercalate (renderAll args) ++ ")"
  | coerced inner t => "(" ++ inner.render ++ " as " ++ t.name ++ ")"
  | sequence first next => "\x7b" ++ first.render ++ "; " ++ next.render ++ "\x7d"

def renderAll : List Fragment → List String
  | [] => []
  | f :: fs => f.render :: renderAll fs

end

def renderTyped (f : Fragment) : String :=
  f.render ++ " : " ++ f.type.name

end Dispatch.Fragment
