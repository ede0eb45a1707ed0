import Dispatch.Text.Combining
import Dispatch.Text.Unprintable

/-!
# Quoted text

How a text is shown inside a description: between double quotes, with every character that would
break the quotes, the line or the page spelled out. Six characters have a short escape of their
own — the quote, the backslash, NUL, tab, line feed and carriage return — and any other that
attaches to its neighbour or has no shape is written by its code point, `\u{e000}`.

In the runtime: how a `Value.Text` is described.

Main statement: `quote_eq_of_plain` — a text of plain characters is shown as it stands.
-/

namespace Dispatch.Text

/-- The code point of a character in lower-case hexadecimal, without leading zeros. -/
def codePoint (c : Char) : String :=
  String.ofList (Nat.toDigits 16 c.toNat)

/-- One character as it stands inside quotes. -/
def escape (c : Char) : String :=
  match c with
  | '\x00' => "\\0"
  | '\t' => "\\t"
  | '\n' => "\\n"
  | '\r' => "\\r"
  | '"' => "\\\""
  | '\\' => "\\\\"
  | c =>
    if isCombining c || isUnprintable c then "\\u\x7b" ++ codePoint c ++ "\x7d" else c.toString

/-- A text between double quotes. -/
def quote (s : String) : String :=
  "\"" ++ String.join (s.toList.map escape) ++ "\""

theorem join_map_toString (s : List Char) :
    String.join (s.map Char.toString) = String.ofList s := by
  induction s with
  | nil => rfl
  | cons c s ih => simp [ih, Char.toString]

/-- A text of plain characters is shown as it stands. -/
theorem quote_eq_of_plain {s : String} (h : ∀ c ∈ s.toList, escape c = c.toString) :
    quote s = "\"" ++ s ++ "\"" := by
  rw [quote, List.map_congr_left h, join_map_toString, String.ofList_toList]

end Dispatch.Text
