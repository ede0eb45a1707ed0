import Dispatch.Operand

/-!
# Guards

A guard is the condition under which a rule may be used again without asking anyone. It is a list of
checks, each on one operand, and it holds if all of them do. A check on an operand that is not there
fails.

A guard comes in three forms — no check, one check, or a list of checks — and `merge` always answers
in the form that the number of checks calls for, with no check twice.

In the runtime: `Check` and `Guard` (`simple`, `merge`, `check`, `holds_for`), and
`signature_guard`.

Main statements: the checks of a merged guard are those of both parts, each at its first place
(`checks_merge`), and it holds just if both parts do (`check_merge`, `holds_merge`).
-/

namespace Dispatch

/-- What one operand is tested for. -/
inductive Test where
  /-- Some value other than nil, of exactly this type. -/
  | typeIs (type : Ty)
  | isNil
  | returns (type : Ty)
  | sameCallable (callable : Callable)

/-- A test on the operand at a position. -/
structure Check where
  operand : Nat
  test : Test

namespace Test

def passes (v : Value) : Test → Bool
  | typeIs t => !v.isNil && v.type == t
  | isNil => v.isNil
  | returns t => v.callable?.any (·.returns == t)
  | sameCallable c => v.callable?.any (·.same c)

/-- Whether two tests are of the same sort and about the same type or function. -/
def same : Test → Test → Bool
  | typeIs s, typeIs t => s == t
  | isNil, isNil => true
  | returns s, returns t => s == t
  | sameCallable c, sameCallable d => c.same d
  | _, _ => false

instance : BEq Test := ⟨same⟩

theorem passes_eq_of_beq {s t : Test} (h : (s == t) = true) (v : Value) :
    s.passes v = t.passes v := by
  cases s with
  | typeIs s =>
    cases t with
    | typeIs t =>
      have hst : (s == t) = true := h
      simp only [passes, BEq.congr_right hst]
    | _ => exact absurd h Bool.false_ne_true
  | isNil =>
    cases t with
    | isNil => rfl
    | _ => exact absurd h Bool.false_ne_true
  | returns s =>
    cases t with
    | returns t =>
      have hst : (s == t) = true := h
      simp only [passes, BEq.congr_right hst]
    | _ => exact absurd h Bool.false_ne_true
  | sameCallable c =>
    cases t with
    | sameCallable d =>
      have hcd : c.identity = d.identity := beq_iff_eq.mp h
      simp only [passes, Callable.same, hcd]
    | _ => exact absurd h Bool.false_ne_true

/-- What counts about a test when it is compared with others: its sort, and the number of its type
or its function. -/
def key : Test → Option (UInt32 ⊕ UInt32 ⊕ Identity)
  | typeIs t => some (.inl t.id)
  | isNil => none
  | returns t => some (.inr (.inl t.id))
  | sameCallable c => some (.inr (.inr c.identity))

theorem beq_iff {s t : Test} : (s == t) = true ↔ s.key = t.key := by
  show s.same t = true ↔ _
  cases s <;> cases t <;> simp [same, key, Ty.beq_iff, Callable.same]

instance : EquivBEq Test where
  rfl := beq_iff.mpr rfl
  symm h := beq_iff.mpr (beq_iff.mp h).symm
  trans h k := beq_iff.mpr ((beq_iff.mp h).trans (beq_iff.mp k))

end Test

deriving instance BEq for Check

namespace Check

def passes (operands : List Value) (c : Check) : Bool :=
  operands[c.operand]?.any c.test.passes

/-- Whether a check passes on what is known of the operands. -/
def holds (operands : List Operand) (c : Check) : Bool :=
  (operands[c.operand]?.bind Operand.value).any c.test.passes

theorem beq_iff {c d : Check} :
    (c == d) = true ↔ c.operand = d.operand ∧ (c.test == d.test) = true := by
  cases c
  cases d
  show (_ && _) = true ↔ _
  rw [Bool.and_eq_true, beq_iff_eq]

instance : EquivBEq Check where
  rfl := beq_iff.mpr ⟨rfl, BEq.rfl⟩
  symm h := beq_iff.mpr ⟨(beq_iff.mp h).1.symm, BEq.symm (beq_iff.mp h).2⟩
  trans h k := beq_iff.mpr
    ⟨(beq_iff.mp h).1.trans (beq_iff.mp k).1, BEq.trans (beq_iff.mp h).2 (beq_iff.mp k).2⟩

theorem test_passes_eq_of_beq {c d : Check} (h : (c == d) = true) :
    c.test.passes = d.test.passes :=
  funext (Test.passes_eq_of_beq (beq_iff.mp h).2)

theorem passes_eq_of_beq {c d : Check} (h : (c == d) = true) (operands : List Value) :
    c.passes operands = d.passes operands := by
  simp only [passes, (beq_iff.mp h).1, test_passes_eq_of_beq h]

theorem holds_eq_of_beq {c d : Check} (h : (c == d) = true) (operands : List Operand) :
    c.holds operands = d.holds operands := by
  simp only [holds, (beq_iff.mp h).1, test_passes_eq_of_beq h]

/-- Operands behind those that a check passes on make no difference to it. -/
theorem passes_append {c : Check} {operands : List Value} (h : c.passes operands = true)
    (more : List Value) : c.passes (operands ++ more) = true := by
  rw [passes, Option.any_eq_true] at h
  obtain ⟨v, hv, htest⟩ := h
  have hin : c.operand < operands.length := (List.getElem?_eq_some_iff.mp hv).1
  rw [passes, List.getElem?_append_left hin, hv]
  exact htest

/-- The simplest check that an operand passes: nil, or of exactly its type. -/
def of (position : Nat) (o : Operand) : Check :=
  ⟨position, if o.isNil then .isNil else .typeIs o.limitType⟩

end Check

/-- The condition under which a rule may be used again. -/
inductive Guard where
  | always
  | one (check : Check)
  | all (checks : List Check)
deriving BEq

namespace Guard

def checks : Guard → List Check
  | always => []
  | one c => [c]
  | all cs => cs

/-- Whether a guard holds on operand values. -/
def check (g : Guard) (operands : List Value) : Bool :=
  g.checks.all (·.passes operands)

/-- Whether a guard holds on what is known of the operands. -/
def holds (g : Guard) (operands : List Operand) : Bool :=
  g.checks.all (·.holds operands)

/-- The guard with these checks, in the form that their number calls for. -/
def ofChecks : List Check → Guard
  | [] => always
  | [c] => one c
  | cs => all cs

/-- The first of each group of equal checks, after those that were seen. -/
def firsts (seen : List Check) : List Check → List Check
  | [] => seen
  | c :: cs => firsts (if seen.contains c then seen else seen ++ [c]) cs

/-- The guard that holds where both hold. -/
def merge (g h : Guard) : Guard :=
  ofChecks (firsts [] (g.checks ++ h.checks))

/-- The guard that the operand is a value other than nil of exactly this type. -/
def typeIs (operand : Nat) (t : Ty) : Guard :=
  one ⟨operand, .typeIs t⟩

def isNil (operand : Nat) : Guard :=
  one ⟨operand, .isNil⟩

def returns (operand : Nat) (t : Ty) : Guard :=
  one ⟨operand, .returns t⟩

def sameCallable (operand : Nat) (c : Callable) : Guard :=
  one ⟨operand, .sameCallable c⟩

/-- The simplest guard on one operand. -/
def simple (position : Nat) (o : Operand) : Guard :=
  one (.of position o)

/-- The simplest guard on operands in a row: for each, that it is nil or has exactly its type. -/
def ofOperands (operands : List Operand) : Guard :=
  (operands.mapIdx simple).foldl merge always

@[simp] theorem checks_ofChecks (cs : List Check) : (ofChecks cs).checks = cs := by
  match cs with
  | [] => rfl
  | [_] => rfl
  | _ :: _ :: _ => rfl

/-- The checks of a merged guard: those of both parts, each at its first place. -/
theorem checks_merge (g h : Guard) : (g.merge h).checks = firsts [] (g.checks ++ h.checks) :=
  checks_ofChecks _

/-- Dropping repeated checks changes nothing for a property that equal checks share. -/
theorem all_firsts {p : Check → Bool} (hp : ∀ {c d : Check}, (c == d) = true → p c = p d)
    (seen cs : List Check) : (firsts seen cs).all p = (seen.all p && cs.all p) := by
  induction cs generalizing seen with
  | nil => simp [firsts]
  | cons c cs ih =>
    rw [firsts, ih, List.all_cons]
    split
    next h =>
      obtain ⟨d, hd, hcd⟩ := List.contains_iff_exists_mem_beq.mp h
      cases hs : seen.all p with
      | false => rfl
      | true => simp [hp hcd, List.all_eq_true.mp hs d hd]
    next => simp [Bool.and_assoc]

/-- A check is among the first ones just if an equal one was seen or is there to be seen. -/
theorem contains_firsts (seen cs : List Check) (c : Check) :
    (firsts seen cs).contains c = (seen.contains c || cs.contains c) := by
  induction cs generalizing seen with
  | nil => simp [firsts]
  | cons d cs ih =>
    rw [firsts, ih, List.contains_cons]
    split
    next h =>
      cases hcd : c == d with
      | false => rfl
      | true => rw [List.contains_congr hcd, h, Bool.true_or, Bool.true_or]
    next => simp [Bool.or_assoc]

/-- Checks that are all different are all kept. -/
theorem firsts_of_distinct {cs : List Check} (seen : List Check)
    (h : (seen ++ cs).Pairwise fun c d => (c == d) = false) : firsts seen cs = seen ++ cs := by
  induction cs generalizing seen with
  | nil => rw [firsts, List.append_nil]
  | cons c cs ih =>
    have hnew : ¬ seen.contains c = true := by
      rw [List.contains_iff_exists_mem_beq]
      rintro ⟨d, hd, hcd⟩
      have hdc := (List.pairwise_append.mp h).2.2 d hd c (List.mem_cons_self ..)
      rw [BEq.symm hcd] at hdc
      cases hdc
    rw [firsts, if_neg hnew, ih (seen ++ [c])]
    · rw [List.append_assoc, List.singleton_append]
    · rwa [List.append_assoc, List.singleton_append]

/-- A guard that holds on operands holds on them with more behind them. -/
theorem check_append {g : Guard} {operands : List Value} (h : g.check operands = true)
    (more : List Value) : g.check (operands ++ more) = true := by
  rw [check, List.all_eq_true] at h ⊢
  intro c hc
  exact Check.passes_append (h c hc) more

/-- A merged guard holds on operand values just if both parts do. -/
theorem check_merge (g h : Guard) (operands : List Value) :
    (g.merge h).check operands = (g.check operands && h.check operands) := by
  simp [check, checks_merge, all_firsts fun h => Check.passes_eq_of_beq h operands]

/-- A merged guard holds on a snapshot just if both parts do. -/
theorem holds_merge (g h : Guard) (operands : List Operand) :
    (g.merge h).holds operands = (g.holds operands && h.holds operands) := by
  simp [holds, checks_merge, all_firsts fun h => Check.holds_eq_of_beq h operands]

end Guard

end Dispatch
