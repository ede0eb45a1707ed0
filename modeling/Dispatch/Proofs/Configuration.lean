import Mathlib.Data.List.Forall2
import Mathlib.Data.List.TakeWhile
import Mathlib.Data.Nat.Digits.Defs
import Dispatch.Dispatcher.Settings
import Dispatch.Engine.Lemmas
import Dispatch.Proofs.History
import Dispatch.Proofs.Session

/-!
# What variables set

The limit is read from a text if, without the blanks around it, it is a `Numeral` for a number that
can be set: decimal digits, with a plus sign in front or not, and as many zeros as one likes. All
other texts leave the default in place, and so does no text at all. The switch is on for all texts
that have something in them besides blanks but for three words for no, in capitals or not. Which
texts these are is said here without the readers, by how they are made up (`Text.Trimmed`,
`Numeral`, `Text.Spells`), and proved to be what the readers accept.

A limit is never zero, however settings come about (`maxRules_through_pos`). So a call site that is
made by the settings keeps its first rule, and is seen with one rule before it is seen to have given
up (`Site.not_straight_to_megamorphic`).

In the runtime: `RuntimeConfig.from_vars`, `with_max_rules_per_site`, `truthy`, and
`SiteState.record` on the first rule.

Main statement: `variables_read`.
-/

namespace Dispatch

namespace Text

/-- A text without the blanks around it: there were none but blanks around, and there are none left
at its ends. -/
structure Trimmed (s t : List Char) : Prop where
  around : ∃ before after, s = before ++ t ++ after ∧ (∀ c ∈ before, isBlank c = true) ∧
    ∀ c ∈ after, isBlank c = true
  head : ∀ c ∈ t.head?, isBlank c = false
  last : ∀ c ∈ t.getLast?, isBlank c = false

/-- A character from `A` to `Z`. -/
def IsCapital (c : Char) : Prop :=
  'A'.toNat ≤ c.toNat ∧ c.toNat ≤ 'Z'.toNat

instance (c : Char) : Decidable (IsCapital c) :=
  inferInstanceAs (Decidable (_ ∧ _))

/-- A character is the one that is meant, or it is the capital of the letter that is meant. -/
def SameLetter (c meant : Char) : Prop :=
  c = meant ∨ IsCapital c ∧ meant.toNat = c.toNat + 32

/-- A text is a word, in capitals or not. -/
def Spells (s : List Char) (word : String) : Prop :=
  List.Forall₂ SameLetter s word.toList

theorem dropWhile_blanks {blanks : List Char} (h : ∀ c ∈ blanks, isBlank c = true) :
    blanks.dropWhile isBlank = [] :=
  List.dropWhile_eq_nil_iff.mpr h

theorem trim_blanks_append {blanks : List Char} (h : ∀ c ∈ blanks, isBlank c = true)
    (s : List Char) : trim (blanks ++ s) = trim s := by
  rw [trim, List.dropWhile_append, dropWhile_blanks h]
  rfl

theorem trimEnd_append_blanks {blanks : List Char} (h : ∀ c ∈ blanks, isBlank c = true)
    (s : List Char) : trimEnd (s ++ blanks) = trimEnd s := by
  rw [trimEnd, List.reverse_append, List.dropWhile_append,
    dropWhile_blanks fun c hc => h c (List.mem_reverse.mp hc)]
  rfl

theorem trim_append_blanks {blanks : List Char} (h : ∀ c ∈ blanks, isBlank c = true)
    (s : List Char) : trim (s ++ blanks) = trim s := by
  rw [trim, trim, List.dropWhile_append, dropWhile_blanks h]
  split
  next hempty => rw [List.isEmpty_iff.mp hempty]
  next => exact trimEnd_append_blanks h _

theorem trimmed_trim (s : List Char) : Trimmed s (trim s) where
  around := by
    refine ⟨s.takeWhile isBlank,
      ((s.dropWhile isBlank).reverse.takeWhile isBlank).reverse, ?_, ?_, ?_⟩
    · rw [trim, trimEnd, List.append_assoc, ← List.reverse_append, List.takeWhile_append_dropWhile,
        List.reverse_reverse, List.takeWhile_append_dropWhile]
    · exact fun c hc => List.mem_takeWhile_imp hc
    · exact fun c hc => List.mem_takeWhile_imp (List.mem_reverse.mp hc)
  head := trim_head s
  last := trim_last s

/-- There is but one way to take away the blanks around a text. -/
theorem trimmed_iff {s t : List Char} : Trimmed s t ↔ t = trim s := by
  constructor
  · rintro ⟨⟨before, after, rfl, hbefore, hafter⟩, hhead, hlast⟩
    rw [trim_append_blanks hafter, trim_blanks_append hbefore, trim_eq_self hhead hlast]
  · rintro rfl
    exact trimmed_trim s

theorem toNat_toLower (c : Char) :
    c.toLower.toNat = if IsCapital c then c.toNat + 32 else c.toNat := by
  have hcapital : (c.val ≥ 'A'.val ∧ c.val ≤ 'Z'.val) ↔ IsCapital c := by
    rw [ge_iff_le, UInt32.le_iff_toNat_le, UInt32.le_iff_toNat_le]
    rfl
  unfold Char.toLower
  split
  next h =>
    rw [if_pos (hcapital.mp h)]
    have hle : c.val.toNat ≤ 90 := UInt32.le_iff_toNat_le.mp h.2
    show (c.val + 32).toNat = c.val.toNat + 32
    rw [UInt32.toNat_add]
    exact Nat.mod_eq_of_lt (by simp only [UInt32.reduceToNat]; omega)
  next h => rw [if_neg (mt hcapital.mpr h)]

/-- A small letter is meant by what is that letter when it is made small. -/
theorem toLower_eq_iff {c meant : Char} (hsmall : ¬ IsCapital meant) :
    c.toLower = meant ↔ SameLetter c meant := by
  rw [← Char.toNat_inj, toNat_toLower]
  split
  next hcapital =>
    constructor
    · intro h
      exact .inr ⟨hcapital, h.symm⟩
    · rintro (rfl | ⟨-, h⟩)
      · exact absurd hcapital hsmall
      · exact h.symm
  next hother =>
    rw [Char.toNat_inj]
    constructor
    · exact .inl
    · rintro (rfl | ⟨h, -⟩)
      · rfl
      · exact absurd h hother

/-- A word without capitals is spelled by the texts that are that word when they are made small. -/
theorem map_toLower_eq_iff {s : List Char} {word : String}
    (hsmall : ∀ c ∈ word.toList, ¬ IsCapital c) :
    String.ofList (s.map Char.toLower) = word ↔ Spells s word := by
  rw [← String.toList_inj, String.toList_ofList, Spells]
  generalize word.toList = letters at hsmall
  induction s generalizing letters with
  | nil => cases letters <;> simp
  | cons c s ih =>
    cases letters with
    | nil => simp
    | cons meant letters =>
      rw [List.map_cons, List.cons.injEq, List.forall₂_cons,
        toLower_eq_iff (hsmall meant List.mem_cons_self),
        ih letters fun d hd => hsmall d (List.mem_cons_of_mem _ hd)]

end Text

/-- A character from `0` to `9`. -/
def IsDecimal (c : Char) : Prop :=
  '0'.toNat ≤ c.toNat ∧ c.toNat ≤ '9'.toNat

instance (c : Char) : Decidable (IsDecimal c) :=
  inferInstanceAs (Decidable (_ ∧ _))

/-- The value of an ASCII digit. -/
def digitValue (c : Char) : Nat :=
  c.toNat - '0'.toNat

/-- A text stands for a number: it is made of ASCII digits, one at least, with a plus sign in front
or without, and the digit that counts least comes last. -/
def Numeral (s : List Char) (n : Nat) : Prop :=
  ∃ sign digits, (sign = [] ∨ sign = ['+']) ∧ s = sign ++ digits ∧ digits ≠ [] ∧
    (∀ c ∈ digits, IsDecimal c) ∧ n = Nat.ofDigits 10 (digits.reverse.map digitValue)

namespace Settings

theorem foldl_digits (s : List Char) :
    s.foldl (fun n c => 10 * n + (c.toNat - '0'.toNat)) 0 =
      Nat.ofDigits 10 (s.reverse.map digitValue) := by
  induction s using List.reverseRecOn with
  | nil => rfl
  | append_singleton s c ih =>
    rw [List.foldl_append, ih, List.reverse_append, List.reverse_singleton, List.singleton_append,
      List.map_cons, Nat.ofDigits_cons]
    exact Nat.add_comm _ _

theorem isDigit_iff {c : Char} : c.isDigit = true ↔ IsDecimal c := by
  rw [Char.isDigit, Bool.and_eq_true, decide_eq_true_eq, decide_eq_true_eq, ge_iff_le,
    UInt32.le_iff_toNat_le, UInt32.le_iff_toNat_le]
  rfl

theorem readDigits_eq_some_iff {s : List Char} {n : Nat} :
    readDigits s = some n ↔ s ≠ [] ∧ (∀ c ∈ s, IsDecimal c) ∧
      n = Nat.ofDigits 10 (s.reverse.map digitValue) := by
  simp only [readDigits, List.all_eq_true, isDigit_iff, foldl_digits, Option.ite_none_right_eq_some,
    Option.some.injEq, and_assoc, eq_comm (a := n)]

/-- What is read as a limit is the numerals for the numbers that can be set. -/
theorem readLimit_eq_some_iff {s : List Char} {n : Nat} :
    readLimit s = some n ↔ Numeral s n ∧ 1 ≤ n ∧ n ≤ greatestLimit := by
  rw [readLimit.eq_def, Option.filter_eq_some_iff, readDigits_eq_some_iff, Bool.and_eq_true,
    decide_eq_true_eq, decide_eq_true_eq]
  refine and_congr_left fun _ => ?_
  split
  next rest =>
    constructor
    · intro h
      exact ⟨['+'], rest, .inr rfl, rfl, h⟩
    · rintro ⟨sign, digits, rfl | rfl, hs, hdigits⟩
      · -- a plus sign is no digit
        rw [List.nil_append] at hs
        have hplus := hdigits.2.1 '+' (hs ▸ List.mem_cons_self)
        exact absurd hplus (by decide)
      · rw [List.singleton_append, List.cons.injEq] at hs
        exact hs.2 ▸ hdigits
  next hunsigned =>
    constructor
    · intro h
      exact ⟨[], s, .inl rfl, rfl, h⟩
    · rintro ⟨sign, digits, rfl | rfl, rfl, hdigits⟩
      · exact hdigits
      · exact absurd rfl (hunsigned digits)

theorem readSwitch_iff {s : List Char} :
    readSwitch s = true ↔ s ≠ [] ∧ ¬ Text.Spells s "0" ∧ ¬ Text.Spells s "false" ∧
      ¬ Text.Spells s "off" := by
  have hzero : String.ofList (s.map Char.toLower) = "0" ↔ Text.Spells s "0" :=
    Text.map_toLower_eq_iff (by simp [Text.IsCapital])
  have hfalse : String.ofList (s.map Char.toLower) = "false" ↔ Text.Spells s "false" :=
    Text.map_toLower_eq_iff (by simp [Text.IsCapital])
  have hoff : String.ofList (s.map Char.toLower) = "off" ↔ Text.Spells s "off" :=
    Text.map_toLower_eq_iff (by simp [Text.IsCapital])
  simp [readSwitch, ← hzero, ← hfalse, ← hoff]

/-- A variable sets the limit to `n`: the text it has, if it has one, is a numeral for `n` with
blanks around, and `n` can be set. -/
def Asks (text : Option String) (n : Nat) : Prop :=
  ∃ v t, text = some v ∧ Text.Trimmed v.toList t ∧ Numeral t n ∧ 1 ≤ n ∧ n < 2 ^ 64

theorem asks_iff {text : Option String} {n : Nat} :
    Asks text n ↔ (text.bind fun v => readLimit (Text.trim v.toList)) = some n := by
  have hgreatest : n ≤ greatestLimit ↔ n < 2 ^ 64 := Nat.le_sub_one_iff_lt (by decide)
  simp only [Asks, Text.trimmed_iff, Option.bind_eq_some_iff, readLimit_eq_some_iff, hgreatest]
  constructor
  · rintro ⟨v, t, hv, rfl, h⟩
    exact ⟨v, hv, h⟩
  · rintro ⟨v, hv, h⟩
    exact ⟨v, _, hv, rfl, h⟩

/-- How settings are changed after they were read. -/
inductive Setter where
  | ignoreCase (on : Bool)
  | maxRules (limit : Nat)

def set (s : Settings) : Setter → Settings
  | .ignoreCase on => s.withIgnoreCase on
  | .maxRules limit => s.withMaxRules limit

/-- The settings after some changes, one after the other. -/
def through (s : Settings) (setters : List Setter) : Settings :=
  setters.foldl set s

theorem maxRules_set_pos {s : Settings} (h : 1 ≤ s.maxRules) (setter : Setter) :
    1 ≤ (s.set setter).maxRules := by
  cases setter with
  | ignoreCase on => exact h
  | maxRules limit => exact Nat.le_max_right limit 1

/-- No change makes the limit zero. -/
theorem maxRules_through_pos {s : Settings} (h : 1 ≤ s.maxRules) (setters : List Setter) :
    1 ≤ (s.through setters).maxRules := by
  induction setters generalizing s with
  | nil => exact h
  | cons setter setters ih => exact ih (maxRules_set_pos h setter)

end Settings

theorem RuleCache.eq_empty_of_uninitialized {c : RuleCache}
    (h : c.classification = .uninitialized) : c = .empty := by
  cases c with
  | empty => rfl
  | polymorphic rs =>
    rw [classification] at h
    split at h <;> cases h
  | _ => cases h

/-- A cache with room for a rule keeps the first one. -/
theorem RuleCache.record_empty {limit : Nat} (h : 1 ≤ limit) (r : Rule) :
    empty.record limit r = monomorphic r := by
  show (if limit = 0 then megamorphic else monomorphic r) = _
  rw [if_neg (Nat.ne_of_gt h)]

/-- With room for a rule, nothing that can happen to a call site leads from no rules at once to
giving up, whatever happened before. -/
theorem Site.not_straight_to_megamorphic {s : Site} (hlimit : 1 ≤ s.maxRules) (es : List Event)
    (event : Event) (hnone : (s.through es).classification = .uninitialized) :
    (s.through (es ++ [event])).classification ≠ .megamorphic := by
  obtain ⟨-, -, -, hsame⟩ := s.through_same es
  rw [through_concat]
  generalize s.through es = t at hnone hsame
  have hempty : t.cache = .empty := RuleCache.eq_empty_of_uninitialized hnone
  have hstays : t.classification ≠ .megamorphic := by
    rw [hnone]
    decide
  cases event with
  | bound operands r =>
    rw [happen, keep]
    split
    next =>
      rw [classification, hempty, RuleCache.record_empty (hsame ▸ hlimit)]
      rintro ⟨⟩
    next => exact hstays
  | reset => rintro ⟨⟩
  | hit operands r => exact hstays
  | miss operands => exact hstays

namespace Engine

variable {σ : Type}

theorem exec_newSiteOf {e : Engine σ} {index : Nat} {d : Dispatcher} {b : BinderRef}
    {op : Operation} (hd : e.dispatchers[index]? = some d) (hb : e.Offers b op)
    (fallback : Option Rule) : ∃ t s, (newSiteOf index b fallback).exec e = (.ok e.sites.size, t) ∧
      t.sites[e.sites.size]? = some s ∧ s.New ∧ s.maxRules = d.settings.maxRules := by
  obtain ⟨db, direct, hdb, tally, hbinder⟩ := hb
  have hexec : (newSiteOf index b fallback).exec e =
      (newSite b d.settings.maxRules fallback).exec e := Act.exec_bind_ok (exec_dispatcher hd)
  rw [hexec, exec_newSite hdb hbinder]
  exact ⟨_, _, rfl, Array.getElem?_push_size, ⟨rfl, rfl, rfl⟩, rfl⟩

end Engine

namespace Settings

/-- The limit is what its variable asks for, and four if that asks for nothing; the switch is on if
its variable has a text that is not blank and no word for no. Neither looks at the other's variable.
However settings that were read, or the default ones, are changed afterwards, the limit is one at
least; and a call site that is made by them never goes from no rules straight to giving up. -/
theorem variables_read {σ : Type} (lookup : String → Option String) :
    ((∀ n, Asks (lookup maxRulesVariable) n → (ofVariables lookup).maxRules = n) ∧
      ((¬ ∃ n, Asks (lookup maxRulesVariable) n) → (ofVariables lookup).maxRules = 4)) ∧
    ((ofVariables lookup).ignoreCase = true ↔
      ∃ v t, lookup ignoreCaseVariable = some v ∧ Text.Trimmed v.toList t ∧ t ≠ [] ∧
        ¬ Text.Spells t "0" ∧ ¬ Text.Spells t "false" ∧ ¬ Text.Spells t "off") ∧
    (∀ other : String → Option String,
      (other maxRulesVariable = lookup maxRulesVariable →
        (ofVariables other).maxRules = (ofVariables lookup).maxRules) ∧
      (other ignoreCaseVariable = lookup ignoreCaseVariable →
        (ofVariables other).ignoreCase = (ofVariables lookup).ignoreCase)) ∧
    ∀ start : Settings, start = ofVariables lookup ∨ start = {} → ∀ setters : List Setter,
      1 ≤ (start.through setters).maxRules ∧
      ∀ (e : Engine σ) (index : Nat) (d : Dispatcher) (b : BinderRef) (op : Operation)
        (fallback : Option Rule), e.dispatchers[index]? = some d →
        d.settings = start.through setters → e.Offers b op →
        ∃ t s, (Engine.newSiteOf index b fallback).exec e = (.ok e.sites.size, t) ∧
          t.sites[e.sites.size]? = some s ∧ s.classification = .uninitialized ∧
          ∀ es event, (s.through es).classification = .uninitialized →
            (s.through (es ++ [event])).classification ≠ .megamorphic := by
  refine ⟨⟨fun n hn => ?_, fun hnone => ?_⟩, ?_, fun other => ⟨fun hsame => ?_, fun hsame => ?_⟩,
    fun start hstart setters => ?_⟩
  · rw [ofVariables, asks_iff.mp hn, Option.getD_some]
  · rw [ofVariables, Option.eq_none_iff_forall_ne_some.mpr fun n hn => hnone ⟨n, asks_iff.mpr hn⟩]
    rfl
  · simp only [ofVariables, Option.any_eq_true, readSwitch_iff, Text.trimmed_iff]
    constructor
    · rintro ⟨v, hv, h⟩
      exact ⟨v, _, hv, rfl, h⟩
    · rintro ⟨v, t, hv, rfl, h⟩
      exact ⟨v, hv, h⟩
  · rw [ofVariables, ofVariables, hsame]
  · rw [ofVariables, ofVariables, hsame]
  · have hpos : 1 ≤ (start.through setters).maxRules := by
      apply maxRules_through_pos
      rcases hstart with rfl | rfl
      · exact maxRules_ofVariables_pos lookup
      · decide
    refine ⟨hpos, fun e index d b op fallback hd hsettings hb => ?_⟩
    obtain ⟨t, s, hexec, hs, hnew, hlimit⟩ := Engine.exec_newSiteOf hd hb fallback
    refine ⟨t, s, hexec, hs, ?_, fun es event => ?_⟩
    · rw [Site.classification, hnew.cache]
      rfl
    · exact Site.not_straight_to_megamorphic (by rw [hlimit, hsettings]; exact hpos) es event

/-- The limit is asked for with a sign, with zeros and with blanks around; the switch is off, in
capitals. -/
theorem variables_read_signed :
    let lookup := fun name => if name = maxRulesVariable then some "\t+0012\u2003" else
      if name = ignoreCaseVariable then some " OFF" else none
    (ofVariables lookup).maxRules = 12 ∧ (ofVariables lookup).ignoreCase = false := by
  intro lookup
  obtain ⟨⟨hlimit, -⟩, hswitch, -⟩ := variables_read (σ := Unit) lookup
  refine ⟨hlimit 12 ?_, ?_⟩
  · refine ⟨_, ['+', '0', '0', '1', '2'], rfl, Text.trimmed_iff.mpr (by decide), ?_, by decide⟩
    exact ⟨['+'], ['0', '0', '1', '2'], .inr rfl, rfl, by decide, by simp [IsDecimal], by decide⟩
  · rw [Bool.eq_false_iff, ne_eq, hswitch]
    rintro ⟨v, t, hv, htrimmed, -, -, -, hoff⟩
    cases hv
    obtain rfl : t = ['O', 'F', 'F'] := (Text.trimmed_iff.mp htrimmed).trans (by decide)
    exact hoff ((Text.map_toLower_eq_iff (by simp [Text.IsCapital])).mp (by decide))

end Settings

end Dispatch
