/-!
# Blank characters

Settings are typed by people, so the blanks around them do not count. `isBlank` is the Unicode
property White_Space and `trim` removes blanks from both ends of a text, never from its inside.

In the runtime: the trimming of variables in `RuntimeConfig.from_vars` and `truthy`.

Main statements: a trimmed text neither starts nor ends with a blank (`trim_head`, `trim_last`),
and a text that does neither is its own trimming (`trim_eq_self`).
-/

namespace Dispatch.Text

/-- The white space characters: the ASCII ones and their wider, narrower and breaking relatives. -/
def isBlank (c : Char) : Bool :=
  let n := c.toNat
  (0x09 ≤ n && n ≤ 0x0D) || n == 0x20 || n == 0x85 || n == 0xA0 || n == 0x1680 ||
    (0x2000 ≤ n && n ≤ 0x200A) || n == 0x2028 || n == 0x2029 || n == 0x202F || n == 0x205F ||
    n == 0x3000

/-- A text without the blanks at its end. -/
def trimEnd (s : List Char) : List Char :=
  (s.reverse.dropWhile isBlank).reverse

/-- A text without the blanks at either end. -/
def trim (s : List Char) : List Char :=
  trimEnd (s.dropWhile isBlank)

theorem trimEnd_last (s : List Char) : ∀ c ∈ (trimEnd s).getLast?, isBlank c = false := by
  intro c hc
  simp only [trimEnd, List.getLast?_reverse] at hc
  have h := List.head?_dropWhile_not isBlank s.reverse
  rw [Option.mem_def.mp hc] at h
  simpa using h

/-- A trimmed text does not end with a blank. -/
theorem trim_last (s : List Char) : ∀ c ∈ (trim s).getLast?, isBlank c = false :=
  trimEnd_last _

theorem trimEnd_cons {c : Char} (h : isBlank c = false) (s : List Char) :
    trimEnd (c :: s) = c :: trimEnd s := by
  simp only [trimEnd, List.reverse_cons, List.dropWhile_append]
  split
  · rename_i he
    simp_all
  · simp

/-- A trimmed text does not start with a blank. -/
theorem trim_head (s : List Char) : ∀ c ∈ (trim s).head?, isBlank c = false := by
  intro c hc
  unfold trim at hc
  have h := List.head?_dropWhile_not isBlank s
  cases hs : s.dropWhile isBlank with
  | nil => simp [hs, trimEnd] at hc
  | cons d r =>
    simp only [hs, List.head?_cons] at h
    have hd : isBlank d = false := by simpa using h
    rw [hs, trimEnd_cons hd] at hc
    simp only [List.head?_cons, Option.mem_def, Option.some.injEq] at hc
    exact hc ▸ hd

/-- Nothing is trimmed off a text that neither starts nor ends with a blank. -/
theorem trim_eq_self {s : List Char} (hh : ∀ c ∈ s.head?, isBlank c = false)
    (hl : ∀ c ∈ s.getLast?, isBlank c = false) : trim s = s := by
  have drop : ∀ t : List Char, (∀ c ∈ t.head?, isBlank c = false) → t.dropWhile isBlank = t := by
    intro t ht
    cases t with
    | nil => rfl
    | cons c r => simp [ht c (by simp)]
  rw [trim, drop s hh, trimEnd, drop s.reverse (by simpa using hl), List.reverse_reverse]

end Dispatch.Text
