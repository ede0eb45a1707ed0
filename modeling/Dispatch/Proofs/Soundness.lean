import Dispatch.Proofs.Agreement
import Mathlib.Data.List.Forall2

/-!
# What the type of a fragment promises

A fragment declares the type of what it produces, and nothing but a coercion checks a declaration.
The promise is kept all the same if each node keeps its own (`Fragment.WellTyped`): a constant is of
the type that it is declared with, an operand is read at a type that takes it, and a routine and a
function, given arguments of the types that were declared for them, return what they are declared
to return. What is left to prove is that nodes put together keep what each of them promised: the
arguments of a routine are values that their types take, because the arguments are fragments too
(`evaluate_accepts`).

A coercion to the type that a fragment has already is the fragment itself, so what it does is
decided by two comparisons: of the types, and of the value with the type coerced to (`Ty.pass`).
Whatever these decide, the value itself passes or nothing does (`exec_coerce`).

In the runtime: `Fragment.evaluate` and its constructors, and `HostType.accepts`.
-/

namespace Dispatch

variable {σ : Type}

/-- A type with truth values or numbers only if it is the built-in type of those. -/
structure Ty.Regular (t : Ty) : Prop where
  boolean : t.kind = .boolean → t.id = Ty.boolean.id
  integer : t.kind = .integer → t.id = Ty.integer.id
  number : t.kind = .number → t.id = Ty.number.id

namespace Ty

variable {source t : Ty} {v w : Value} {fault : Fault}

theorem Regular.of_mem_builtins (h : t ∈ builtins) : t.Regular := by
  simp only [builtins, List.mem_cons, List.not_mem_nil, or_false] at h
  rcases h with rfl | rfl | rfl | rfl | rfl | rfl | rfl | rfl | rfl <;> constructor <;> decide

/-- A slot takes the value that it holds before anything is stored in it. -/
theorem Regular.accepts_zero (h : t.Regular) : t.accepts t.zero = true := by
  unfold accepts
  split
  next => rfl
  next =>
    unfold zero
    cases hk : t.kind with
    | boolean => exact Ty.beq_iff.mpr (h.boolean hk).symm
    | integer => exact Ty.beq_iff.mpr (h.integer hk).symm
    | number => exact Ty.beq_iff.mpr (h.number hk).symm
    | _ => rfl

theorem Regular.isReference_of_isVoid (h : t.Regular) (hvoid : t.isVoid = true) :
    t.kind.isReference = true := by
  have hid : t.id = Ty.void.id := Ty.beq_iff.mp hvoid
  cases hk : t.kind with
  | boolean => exact absurd (hid.symm.trans (h.boolean hk)) (by decide)
  | integer => exact absurd (hid.symm.trans (h.integer hk)) (by decide)
  | number => exact absurd (hid.symm.trans (h.number hk)) (by decide)
  | _ => rfl

theorem accepts_nil (h : t.kind.isReference = true) : t.accepts .nil = true := by
  unfold accepts
  split
  next => rfl
  next => exact h

/-- What a slot admits it takes, nil in place of anything in a `void` slot. -/
theorem Regular.accepts_admitted (h : t.Regular) (hw : t.admit v = .ok w) :
    t.accepts w = true := by
  unfold Ty.admit at hw
  split at hw
  next hvoid =>
    cases hw
    exact accepts_nil (h.isReference_of_isVoid hvoid)
  next =>
    split at hw
    next haccepts =>
      cases hw
      exact haccepts
    next => cases hw

/-- What becomes of a value of a fragment declared `source` that is coerced to `t`. -/
def pass (source t : Ty) (v : Value) : Outcome Value :=
  if source == t then .ok v else t.admit v

/-- What passes is the value itself, or nil in its place where the type is another and `void`. -/
theorem pass_eq_ok_iff : source.pass t v = .ok w ↔
    if (source == t) = false ∧ t.isVoid = true then w = .nil
    else w = v ∧ ((source == t) = true ∨ t.accepts v = true) := by
  unfold pass Ty.admit
  cases hs : source == t <;> cases hv : t.isVoid <;> cases ha : t.accepts v <;> simp [eq_comm]

/-- A value is stopped by the comparison with a type that is another, not `void`, and does not take
it. -/
theorem pass_eq_error_iff : source.pass t v = .error fault ↔
    fault = .invalidCast v.type.name t.name ∧
      (source == t) = false ∧ t.isVoid = false ∧ t.accepts v = false := by
  unfold pass Ty.admit
  cases hs : source == t <;> cases hv : t.isVoid <;> cases ha : t.accepts v <;> simp [eq_comm]

end Ty

/-- Given arguments that slots of their types take, the body returns what a slot of `t` takes. -/
def Body.Honors (call : Body → List Value → Run σ Value) (body : Body) (params : List Ty)
    (t : Ty) : Prop :=
  ∀ args, List.Forall₂ (fun p v => p.accepts v = true) params args →
    ∀ v, (call body args).Gives v → t.accepts v = true

namespace Fragment

variable {call : Body → List Value → Run σ Value} {operands : List Value}

mutual

/-- Every node of the fragment keeps the promise that its type makes. -/
def WellTyped (call : Body → List Value → Run σ Value) (operands : List Value) : Fragment → Prop
  | constant v t => t.accepts v = true
  | zero t => t.Regular
  | operand position t => ∀ v, operands[position]? = some v → t.accepts v = true
  | raise _ _ => True
  | host _ args body t => body.Honors call (args.map type) t ∧ AllWellTyped call operands args
  | invoke callee args t =>
    (∀ c, (callee.evaluate call operands).Gives (.callable c) →
        c.body.Honors call (args.map type) t) ∧
      WellTyped call operands callee ∧ AllWellTyped call operands args
  | coerced inner t => t.Regular ∧ WellTyped call operands inner
  | sequence first next => WellTyped call operands first ∧ WellTyped call operands next

def AllWellTyped (call : Body → List Value → Run σ Value) (operands : List Value) :
    List Fragment → Prop
  | [] => True
  | f :: fs => WellTyped call operands f ∧ AllWellTyped call operands fs

end

mutual

/-- A well-typed fragment produces values that its type takes. -/
theorem accepts_of_gives :
    ∀ f : Fragment, f.WellTyped call operands →
      ∀ v, (f.evaluate call operands).Gives v → f.type.accepts v = true
  | constant _ _, hf, v, h => by
    rw [evaluate] at h
    rw [Run.gives_pure h]
    exact hf
  | zero t, hf, v, h => by
    rw [evaluate] at h
    rw [Run.gives_pure h]
    exact hf.accepts_zero
  | operand position t, hf, v, h => by
    rw [evaluate] at h
    split at h
    next w hw =>
      rw [Run.gives_pure h]
      exact hf w hw
    next => exact absurd h Run.not_gives_throw
  | raise _ _, _, v, h => by
    rw [evaluate] at h
    exact absurd h Run.not_gives_throw
  | host _ args body t, hf, v, h => by
    rw [evaluate] at h
    obtain ⟨vs, hvs, h⟩ := Run.gives_bind h
    exact hf.1 vs (accepts_all_of_gives args hf.2 vs hvs) v h
  | invoke callee args t, hf, v, h => by
    rw [evaluate] at h
    obtain ⟨w, hw, h⟩ := Run.gives_bind h
    obtain ⟨vs, hvs, h⟩ := Run.gives_bind h
    -- only a function goes on to be called
    cases w with
    | callable c => exact hf.1 c hw vs (accepts_all_of_gives args hf.2.2 vs hvs) v h
    | _ => exact absurd h Run.not_gives_throw
  | coerced inner t, hf, v, h => by
    rw [evaluate] at h
    obtain ⟨w, -, h⟩ := Run.gives_bind h
    split at h
    next u hu =>
      rw [Run.gives_pure h]
      exact hf.1.accepts_admitted hu
    next => exact absurd h Run.not_gives_throw
  | sequence _ next, hf, v, h => by
    rw [evaluate] at h
    obtain ⟨-, -, h⟩ := Run.gives_bind h
    exact accepts_of_gives next hf.2 v h

theorem accepts_all_of_gives :
    ∀ fs : List Fragment, AllWellTyped call operands fs →
      ∀ vs, (evaluateAll call operands fs).Gives vs →
        List.Forall₂ (fun p v => p.accepts v = true) (fs.map type) vs
  | [], _, vs, h => by
    rw [evaluateAll] at h
    rw [Run.gives_pure h]
    exact .nil
  | f :: fs, hf, vs, h => by
    rw [evaluateAll] at h
    obtain ⟨w, hw, h⟩ := Run.gives_bind h
    obtain ⟨ws, hws, h⟩ := Run.gives_bind h
    rw [Run.gives_pure h]
    exact .cons (accepts_of_gives f hf.1 w hw) (accepts_all_of_gives fs hf.2 ws hws)

end

/-- A coercion ends as what is coerced does, but for what becomes of the value. -/
theorem exec_coerce (f : Fragment) (t : Ty) (s : σ) :
    ((f.coerce t).evaluate call operands).exec s =
      match (f.evaluate call operands).exec s with
      | (.ok (.ok v), u) => (.ok (f.type.pass t v), u)
      | failed => failed := by
  unfold coerce Ty.pass
  split
  next =>
    -- the fragment itself
    rcases (f.evaluate call operands).exec s with ⟨_ | _ | v, u⟩ <;> rfl
  next =>
    rw [evaluate, Run.exec_bind]
    rcases (f.evaluate call operands).exec s with ⟨_ | _ | v, u⟩
    · rfl
    · rfl
    · dsimp only
      cases t.admit v <;> rfl

/-- A well-typed fragment produces nothing but what its type takes. And a coercion, well typed or
not, changes no value: it fails as the fragment does, or hands on the value of the fragment, or nil
where the type is another and `void`, or stops the value just where the type is another, is not
`void` and does not take it. -/
theorem evaluate_sound (call : Body → List Value → Run σ Value) (operands : List Value)
    (f : Fragment) :
    (f.WellTyped call operands →
      ∀ v, (f.evaluate call operands).Gives v → f.type.accepts v = true) ∧
    ∀ (t : Ty) (s : σ),
      match (f.evaluate call operands).exec s with
      | (.ok (.ok v), u) =>
        ∃ outcome, ((f.coerce t).evaluate call operands).exec s = (.ok outcome, u) ∧
          (∀ w, outcome = .ok w ↔
            if (f.type == t) = false ∧ t.isVoid = true then w = .nil
            else w = v ∧ ((f.type == t) = true ∨ t.accepts v = true)) ∧
          ∀ fault, outcome = .error fault ↔
            fault = .invalidCast v.type.name t.name ∧
              (f.type == t) = false ∧ t.isVoid = false ∧ t.accepts v = false
      | failed => ((f.coerce t).evaluate call operands).exec s = failed := by
  refine ⟨fun hf => accepts_of_gives f hf, fun t s => ?_⟩
  split
  next v u h =>
    refine ⟨f.type.pass t v, ?_, fun w => Ty.pass_eq_ok_iff, fun fault => Ty.pass_eq_error_iff⟩
    rw [exec_coerce, h]
  next failed h =>
    rw [exec_coerce]
    split
    next v u hv => exact absurd hv (h v u)
    next => rfl

/-- A routine that answers with its first argument keeps its promise on an integer and a number, and
what it answers is stopped on its way into a text slot. -/
theorem evaluate_sound_first :
    let call : Body → List Value → Run Unit Value := fun _ args => pure (Value.first args)
    let f : Fragment := .host "first" [.operand 0 .integer, .zero .number] (.native 0) .integer
    f.WellTyped call [.integer 5] ∧
      (∀ v, (f.evaluate call [.integer 5]).Gives v → Ty.integer.accepts v = true) ∧
      ((f.coerce .text).evaluate call [.integer 5]).exec () =
        (.ok (.error (.invalidCast "integer" "string")), ()) := by
  intro call f
  have hf : f.WellTyped call [.integer 5] := by
    have hnumber : Ty.number.Regular := Ty.Regular.of_mem_builtins (by simp [Ty.builtins])
    refine ⟨fun args hargs v hv => ?_, fun v hv => ?_, hnumber, trivial⟩
    · -- the first argument is of the type that the routine returns
      obtain ⟨w, rest, hw, -, rfl⟩ := List.forall₂_cons_left_iff.mp hargs
      rw [Run.gives_pure hv]
      exact hw
    · cases hv
      rfl
  exact ⟨hf, (evaluate_sound call [.integer 5] f).1 hf, rfl⟩

end Fragment

end Dispatch
