import Mathlib.Data.List.Forall2
import Dispatch.Value.Basic

/-!
# Equality of values

Values are compared by what they are made of, with two exceptions. A number that is not a number
differs from itself, and a result list equals every handle on its own storage, whatever it lists.
So a result list may equal itself though its elements do not, and a chain of equalities may pass
through shared storage at one link and from element to element at the next, on every level of
nesting.

It is a partial equivalence nevertheless, because two handles on one storage list the same values: a
link that stays in one storage changes nothing about what is listed (`beq_trans`). That is meant by
`Value.StoredIn`. The induction is on the elements of result lists (`of_elements`); all other values
but numbers are compared by their `Token`.

In the runtime: `eq` of `Value` and of `MultiResult`.

Main statement: `equality_of_stored_values`.
-/

namespace Dispatch

namespace Number

open Float.Model (UnpackedFloat)

/-- What counts of a number when it is compared: nothing of one that is not a number, and of a zero
all but its sign. -/
def measure : UnpackedFloat → Option UnpackedFloat
  | .notANumber => none
  | .zero _ => some (.zero .positive)
  | x => some x

theorem compare_finite {s s' : UnpackedFloat.Sign} {m m' : Nat} {e e' : Int} {h : 0 < m}
    {h' : 0 < m'} : UnpackedFloat.compare (.finite s m e h) (.finite s' m' e' h') = some .eq ↔
      s = s' ∧ m = m' ∧ e = e' := by
  cases s <;> cases s'
  case positive.positive =>
    show some ((compare e e').then (compare m m')) = some .eq ↔ _
    simp [Ordering.then_eq_eq, and_comm]
  case negative.negative =>
    show some ((compare e e').then (compare m m')).swap = some .eq ↔ _
    simp [Ordering.then_eq_eq, and_comm]
  all_goals
    refine iff_of_false ?_ ?_
    · rintro ⟨⟩
    · rintro ⟨⟨⟩, -⟩

theorem compare_eq_iff {x y : UnpackedFloat} :
    x.compare y = some .eq ↔ measure x = measure y ∧ (measure x).isSome := by
  -- two numbers of different kinds are neither equal nor do they measure the same
  have apart : ∀ {x y : UnpackedFloat}, x.compare y ≠ some .eq → measure x ≠ measure y →
      (x.compare y = some .eq ↔ measure x = measure y ∧ (measure x).isSome) :=
    fun hcompare hmeasure => iff_of_false hcompare fun h => hmeasure h.1
  cases x with
  | notANumber =>
    refine iff_of_false ?_ ?_
    · rintro ⟨⟩
    · rintro ⟨-, ⟨⟩⟩
  | infinity s =>
    cases y with
    | infinity s' =>
      cases s <;> cases s'
      case positive.positive | negative.negative => exact iff_of_true rfl ⟨rfl, rfl⟩
      all_goals exact apart (by rintro ⟨⟩) (by rintro ⟨⟩)
    | _ => cases s <;> exact apart (by rintro ⟨⟩) (by rintro ⟨⟩)
  | zero s =>
    cases y with
    | zero s' => exact iff_of_true rfl ⟨rfl, rfl⟩
    | notANumber => exact apart (by rintro ⟨⟩) (by rintro ⟨⟩)
    | infinity s' | finite s' => cases s' <;> exact apart (by rintro ⟨⟩) (by rintro ⟨⟩)
  | finite s m e h =>
    cases y with
    | finite s' m' e' h' =>
      show _ ↔ some (UnpackedFloat.finite s m e h) = some (.finite s' m' e' h') ∧ true = true
      rw [compare_finite, and_iff_left rfl, Option.some.injEq, UnpackedFloat.finite.injEq]
    | infinity s' => cases s <;> cases s' <;> exact apart (by rintro ⟨⟩) (by rintro ⟨⟩)
    | _ => cases s <;> exact apart (by rintro ⟨⟩) (by rintro ⟨⟩)

theorem beq_iff {x y : Float} :
    (x == y) = true ↔
      measure x.toModel.unpack = measure y.toModel.unpack ∧ (measure x.toModel.unpack).isSome := by
  show (x.toModel.unpack.compare y.toModel.unpack == some .eq) = true ↔ _
  rw [beq_iff_eq, compare_eq_iff]

theorem beq_comm (x y : Float) : (x == y) = (y == x) := by
  rw [Bool.eq_iff_iff, beq_iff, beq_iff]
  constructor <;>
  · rintro ⟨hsame, hsome⟩
    exact ⟨hsame.symm, hsame ▸ hsome⟩

theorem beq_trans {x y z : Float} (h : (x == y) = true) (k : (y == z) = true) :
    (x == z) = true := by
  rw [beq_iff] at *
  exact ⟨h.1.trans k.1, h.2⟩

/-- Nothing differs from itself but what is not a number. -/
theorem beq_self (x : Float) : (x == x) = !x.isNaN := by
  have hsome : ∀ u : UnpackedFloat, (measure u).isSome = !u.isNaN := by
    intro u
    cases u <;> rfl
  rw [Bool.eq_iff_iff, beq_iff, hsome]
  exact and_iff_right rfl

end Number

namespace Value

/-- What a result list lists; other values have no elements. -/
def elements (v : Value) : List Value :=
  v.result?.getD []

/-- What holds of a value as soon as it holds of its elements holds of all values. -/
@[elab_as_elim]
theorem of_elements {P : Value → Prop} (step : ∀ v, (∀ w ∈ v.elements, P w) → P v) (v : Value) :
    P v :=
  step v fun w _ => of_elements step w
termination_by sizeOf v
decreasing_by
  cases v with
  | result storage values =>
    have := List.sizeOf_lt_of_mem (show w ∈ values from ‹_›)
    simp only [result.sizeOf_spec]
    omega
  | _ => exact absurd ‹_› List.not_mem_nil

/-- A value occurs in itself, and what occurs in an element of a result list occurs in the list. -/
inductive Occurs (v : Value) : Value → Prop
  | here : Occurs v v
  | inside {w : Value} {storage : Identity} {values : List Value} :
    w ∈ values → Occurs v w → Occurs v (.result storage values)

/-- All result lists that occur in the value list what their storage contains. -/
def StoredIn (contents : Identity → List Value) (v : Value) : Prop :=
  ∀ storage values, Occurs (.result storage values) v → values = contents storage

/-- What a value is compared by, if it is neither a number nor a result list. -/
inductive Token where
  | nil
  | boolean (b : Bool)
  | integer (i : Int64)
  | text (s : String)
  | callable (identity : Identity)
  | object (identity : Identity)

def token? : Value → Option Token
  | nil => some .nil
  | boolean b => some (.boolean b)
  | integer i => some (.integer i)
  | text s => some (.text s)
  | callable c => some (.callable c.identity)
  | object o => some (.object o.identity)
  | number _ | result _ _ => none

variable {contents : Identity → List Value} {u v w : Value}

theorem storedIn_result {s : Identity} {vs : List Value} :
    StoredIn contents (.result s vs) ↔ vs = contents s ∧ ∀ v ∈ vs, v.StoredIn contents := by
  constructor
  · intro h
    exact ⟨h s vs .here, fun v hv t ws ht => h t ws (.inside hv ht)⟩
  · rintro ⟨hvs, helements⟩ t ws hoccurs
    cases hoccurs with
    | here => exact hvs
    | inside hv ht => exact helements _ hv t ws ht

theorem token_or_number_or_result (v : Value) :
    (∃ a, v.token? = some a) ∨ (∃ x, v = .number x) ∨ ∃ s vs, v = .result s vs := by
  cases v with
  | number x => exact .inr (.inl ⟨x, rfl⟩)
  | result s vs => exact .inr (.inr ⟨s, vs, rfl⟩)
  | _ => exact .inl ⟨_, rfl⟩

theorem beq_iff_of_token {a : Token} (h : v.token? = some a) :
    (v == w) = true ↔ v.token? = w.token? := by
  show v.equal w = true ↔ _
  cases v <;> cases h <;> cases w <;> simp [equal, token?, Callable.same]

theorem number_beq_iff {x : Float} :
    (Value.number x == w) = true ↔ ∃ y, w = .number y ∧ (x == y) = true := by
  show (Value.number x).equal w = true ↔ _
  cases w <;> simp [equal]

theorem equalAll_iff {vs ws : List Value} :
    equalAll vs ws = true ↔ List.Forall₂ (fun v w => (v == w) = true) vs ws := by
  induction vs generalizing ws with
  | nil => cases ws <;> simp [equalAll]
  | cons v vs ih =>
    cases ws with
    | nil => simp [equalAll]
    | cons w ws =>
      rw [equalAll, Bool.and_eq_true, List.forall₂_cons, ih]
      rfl

theorem result_beq_iff {s : Identity} {vs : List Value} :
    (Value.result s vs == w) = true ↔
      ∃ t ws, w = .result t ws ∧ (s = t ∨ List.Forall₂ (fun v w => (v == w) = true) vs ws) := by
  show (Value.result s vs).equal w = true ↔ _
  cases w <;> simp [equal, equalAll_iff]

/-- Equal values are of one sort. -/
theorem ctorIdx_eq_of_beq (h : (v == w) = true) : v.ctorIdx = w.ctorIdx := by
  cases v <;> cases w <;> first | rfl | exact absurd h Bool.false_ne_true

theorem beq_symm (h : (v == w) = true) : (w == v) = true := by
  induction v using of_elements generalizing w with
  | step v ih =>
  rcases v.token_or_number_or_result with ⟨a, ha⟩ | ⟨x, rfl⟩ | ⟨s, vs, rfl⟩
  · have hsame := (beq_iff_of_token ha).mp h
    exact (beq_iff_of_token (hsame ▸ ha)).mpr hsame.symm
  · obtain ⟨y, rfl, hxy⟩ := number_beq_iff.mp h
    rw [Number.beq_comm] at hxy
    exact number_beq_iff.mpr ⟨x, rfl, hxy⟩
  · obtain ⟨t, ws, rfl, hst⟩ := result_beq_iff.mp h
    refine result_beq_iff.mpr ⟨s, vs, rfl, hst.imp Eq.symm fun hlisted => ?_⟩
    rw [List.forall₂_iff_get] at hlisted ⊢
    exact ⟨hlisted.1.symm, fun i hi hi' => ih _ (List.get_mem vs _) (hlisted.2 i hi' hi)⟩

theorem beq_trans (hu : u.StoredIn contents) (hv : v.StoredIn contents) (hw : w.StoredIn contents)
    (h : (u == v) = true) (k : (v == w) = true) : (u == w) = true := by
  induction u using of_elements generalizing v w with
  | step u ih =>
  rcases u.token_or_number_or_result with ⟨a, ha⟩ | ⟨x, rfl⟩ | ⟨s, us, rfl⟩
  · have hsame := (beq_iff_of_token ha).mp h
    have hsame' := (beq_iff_of_token (hsame ▸ ha)).mp k
    exact (beq_iff_of_token ha).mpr (hsame.trans hsame')
  · obtain ⟨y, rfl, hxy⟩ := number_beq_iff.mp h
    obtain ⟨z, rfl, hyz⟩ := number_beq_iff.mp k
    exact number_beq_iff.mpr ⟨z, rfl, Number.beq_trans hxy hyz⟩
  · obtain ⟨t, vs, rfl, hst⟩ := result_beq_iff.mp h
    obtain ⟨r, ws, rfl, htr⟩ := result_beq_iff.mp k
    obtain ⟨rfl, hus⟩ := storedIn_result.mp hu
    obtain ⟨rfl, hvs⟩ := storedIn_result.mp hv
    obtain ⟨rfl, hws⟩ := storedIn_result.mp hw
    refine result_beq_iff.mpr ⟨r, _, rfl, ?_⟩
    -- a link that stays in one storage leaves it to the other one
    rcases hst with rfl | hst
    · exact htr
    · rcases htr with rfl | htr
      · exact .inr hst
      · right
        rw [List.forall₂_iff_get] at *
        refine ⟨hst.1.trans htr.1, fun i hi hi' => ?_⟩
        have hj : i < (contents t).length := hst.1 ▸ hi
        exact ih _ (List.get_mem _ _) (hus _ (List.get_mem _ _)) (hvs _ (List.get_mem _ _))
          (hws _ (List.get_mem _ _)) (hst.2 i hi hj) (htr.2 i hj hi')

/-- Only what is not a number differs from itself. -/
theorem beq_self_iff : (v == v) = true ↔ ∀ x, v = .number x → x.isNaN = false := by
  rcases v.token_or_number_or_result with ⟨a, ha⟩ | ⟨x, rfl⟩ | ⟨s, vs, rfl⟩
  · refine iff_of_true ((beq_iff_of_token ha).mpr rfl) ?_
    rintro x rfl
    cases ha
  · rw [number_beq_iff]
    simp [Number.beq_self]
  · exact iff_of_true (result_beq_iff.mpr ⟨s, vs, rfl, .inl rfl⟩) nofun

/-- Equality is a partial equivalence on values that are stored: it is symmetric, and transitive as
long as every storage has one content. Handles on one storage are equal whatever it contains, and
result lists in different storages just if they have the same length and equal elements. Nothing
differs from itself but what is not a number, so no value does in which no such number occurs.
Values of different sorts are never equal. -/
theorem equality_of_stored_values (contents : Identity → List Value) :
    (∀ v w : Value, (v == w) = true → (w == v) = true) ∧
    (∀ u v w : Value, u.StoredIn contents → v.StoredIn contents → w.StoredIn contents →
      (u == v) = true → (v == w) = true → (u == w) = true) ∧
    (∀ s vs ws, (Value.result s vs == .result s ws) = true) ∧
    (∀ s t vs ws, s ≠ t → ((Value.result s vs == .result t ws) = true ↔
      vs.length = ws.length ∧ ∀ i (h : i < vs.length) (h' : i < ws.length),
        (vs[i] == ws[i]) = true)) ∧
    (∀ v : Value, (v == v) = true ↔ ∀ x, v = .number x → x.isNaN = false) ∧
    (∀ v : Value, (∀ x, Occurs (.number x) v → x.isNaN = false) → (v == v) = true) ∧
    ∀ v w : Value, v.ctorIdx ≠ w.ctorIdx → (v == w) = false := by
  refine ⟨fun v w => beq_symm, fun u v w => beq_trans, fun s vs ws => ?_, fun s t vs ws hst => ?_,
    fun v => beq_self_iff, fun v hv => ?_, fun v w hsort => ?_⟩
  · exact result_beq_iff.mpr ⟨s, ws, rfl, .inl rfl⟩
  · rw [result_beq_iff]
    simp [hst, List.forall₂_iff_get]
  · rw [beq_self_iff]
    rintro x rfl
    exact hv x .here
  · exact Bool.eq_false_iff.mpr fun h => hsort (ctorIdx_eq_of_beq h)

/-- A storage whose one number differs from itself, and others that contain a handle on it. -/
def nestedContents (storage : Identity) : List Value :=
  if storage.index = 0 then [.number (0 / 0)] else [.result ⟨0⟩ [.number (0 / 0)]]

/-- A handle on one of the others. -/
def nested (n : Nat) : Value :=
  .result ⟨n + 1⟩ [.result ⟨0⟩ [.number (0 / 0)]]

theorem nested_storedIn (n : Nat) : (nested n).StoredIn nestedContents := by
  refine storedIn_result.mpr ⟨rfl, fun v hv => ?_⟩
  rw [List.mem_singleton.mp hv]
  refine storedIn_result.mpr ⟨rfl, fun v hv => ?_⟩
  rw [List.mem_singleton.mp hv]
  rintro _ _ ⟨⟩

/-- Three lists in different storages are equal from the one to the next, because what they list is
in one storage, though the number in it differs from itself. -/
theorem equality_of_stored_values_nested :
    (∀ n, (nested n).StoredIn nestedContents) ∧ (Value.number (0 / 0) == .number (0 / 0)) = false ∧
      (nested 0 == nested 1) = true ∧ (nested 1 == nested 2) = true ∧
      (nested 0 == nested 2) = true := by
  obtain ⟨-, htrans, hshared, hlisted, -⟩ := equality_of_stored_values nestedContents
  have hlink : ∀ n, (nested n == nested (n + 1)) = true := by
    intro n
    refine (hlisted ⟨n + 1⟩ ⟨n + 2⟩ _ _ (by simp)).mpr ⟨rfl, fun i h _ => ?_⟩
    obtain rfl : i = 0 := by simpa using h
    exact hshared ⟨0⟩ _ _
  exact ⟨nested_storedIn, by decide +kernel, hlink 0, hlink 1,
    htrans _ _ _ (nested_storedIn 0) (nested_storedIn 1) (nested_storedIn 2) (hlink 0) (hlink 1)⟩

end Value

end Dispatch
