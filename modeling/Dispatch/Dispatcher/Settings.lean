import Dispatch.Text.Blank

/-!
# Settings

Two things can be set from outside: whether members are looked up without regard to case, and how
many rules a call site keeps. Both are read from variables, as text; blanks around a text do not
count, and a text that makes no sense leaves the default in place. `readLimit` accepts an optional
plus sign and decimal digits, for a number from 1 to `greatestLimit`.

In the runtime: `RuntimeConfig` (`from_vars`, `with_ignore_case`, `with_max_rules_per_site`) and
`truthy`.
-/

namespace Dispatch

/-- How many rules a call site keeps if nothing is set. -/
def Settings.defaultLimit : Nat := 4

/-- What can be set for a dispatcher. -/
structure Settings where
  /-- Whether member names are looked up without regard to case unless an operation says. -/
  ignoreCase : Bool := false
  /-- How many rules a call site keeps before it stops keeping any. -/
  maxRules : Nat := Settings.defaultLimit
deriving DecidableEq, Repr

namespace Settings

/-- The greatest number of rules that can be set. -/
def greatestLimit : Nat := Nat.pow 2 64 - 1

/-- The variable that says whether case counts. -/
def ignoreCaseVariable : String := "KESTREL_IGNORE_CASE"

/-- The variable that says how many rules a call site keeps. -/
def maxRulesVariable : String := "KESTREL_MAX_RULES"

/-- The number that decimal digits denote; there must be one at least, and nothing else. -/
def readDigits (s : List Char) : Option Nat :=
  if s ≠ [] ∧ s.all Char.isDigit then
    some (s.foldl (fun n c => 10 * n + (c.toNat - '0'.toNat)) 0)
  else none

/-- A limit in digits, perhaps with a plus sign in front. -/
def readLimit (s : List Char) : Option Nat :=
  let digits := match s with
    | '+' :: rest => rest
    | s => s
  (readDigits digits).filter fun n => 1 ≤ n && n ≤ greatestLimit

/-- Whether a text switches something on: any does but the empty one and three words for no. -/
def readSwitch (s : List Char) : Bool :=
  !s.isEmpty && !(["0", "false", "off"].contains (String.ofList (s.map Char.toLower)))

/-- The settings that variables ask for. -/
def ofVariables (lookup : String → Option String) : Settings where
  ignoreCase := (lookup ignoreCaseVariable).any fun v => readSwitch (Text.trim v.toList)
  maxRules :=
    ((lookup maxRulesVariable).bind fun v => readLimit (Text.trim v.toList)).getD defaultLimit

def withIgnoreCase (s : Settings) (ignoreCase : Bool) : Settings :=
  { s with ignoreCase }

/-- Sets the number of rules; a call site keeps one at least. -/
def withMaxRules (s : Settings) (maxRules : Nat) : Settings :=
  { s with maxRules := max maxRules 1 }

def render (s : Settings) : String :=
  "RuntimeConfig \x7b ignore_case: " ++ toString s.ignoreCase ++
    ", max_rules_per_site: " ++ toString s.maxRules ++ " \x7d"

theorem readLimit_pos {s : List Char} {n : Nat} (h : readLimit s = some n) : 1 ≤ n := by
  simp only [readLimit, Option.filter_eq_some_iff, Bool.and_eq_true, decide_eq_true_eq] at h
  exact h.2.1

/-- Variables never ask for a call site that keeps no rule. -/
theorem maxRules_ofVariables_pos (lookup : String → Option String) :
    1 ≤ (ofVariables lookup).maxRules := by
  unfold ofVariables
  cases h : (lookup maxRulesVariable).bind fun v => readLimit (Text.trim v.toList) with
  | none => simp [defaultLimit]
  | some n =>
    obtain ⟨v, _, hv⟩ := Option.bind_eq_some_iff.mp h
    simpa [h] using readLimit_pos hv

end Settings

end Dispatch
