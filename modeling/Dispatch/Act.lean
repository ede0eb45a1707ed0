import Dispatch.Operation.Kind

/-!
# Acting on a state

Everything that can reach the host works on a state that the host may change too, so it is written
in one of two monads over a state `σ`. An `Act` either answers or stops with a `Panic`, which says
that the program was put together wrongly and which nothing catches. A `Run` may also fail with a
`Fault`, an error of the running program. Both leave behind the state that they reached.

`Act.exec` and `Run.exec` are the views of the two: what an action answers from a state and the
state it leaves. Each way of making an action has a lemma that says how it looks there
(`exec_bind`, `exec_throw`, …), so that nothing else needs to know how the monads are made.

In the runtime: `RuntimeError` (`message`); a `Panic` is an assertion that fails.
-/

namespace Dispatch

/-- An error of a running program. -/
inductive Fault where
  /-- Raised by the program. -/
  | raised (message : String)
  /-- A value of a type that cannot be called was called. -/
  | notCallable (typeName : String)
  /-- A value of one type was found where a coercion lets only another pass. -/
  | invalidCast (source target : String)
  /-- An operand was read that is not there. -/
  | missingOperand (position : Nat)
  /-- Reported by the host. -/
  | native (message : String)
deriving DecidableEq, Repr

namespace Fault

def text : Fault → String
  | raised message => message
  | notCallable typeName => "type '" ++ typeName ++ "' is not callable"
  | invalidCast source target => "cannot convert '" ++ source ++ "' to '" ++ target ++ "'"
  | missingOperand position => "operand " ++ toString position ++ " is not available"
  | native message => message

/-- The message of a fault that the program raised itself. -/
def raised? : Fault → Option String
  | raised message => some message
  | _ => none

end Fault

/-- A mistake in how a program was put together. -/
inductive Panic where
  /-- An operation got a number of operands that it cannot take. -/
  | operandCount (kind : Operation.Kind) (received : Nat)
  /-- A call names more arguments than it has. -/
  | excessNames (names arguments : Nat)
  /-- Binding was put off although all operands had values. -/
  | deferredKnown (kind : Operation.Kind) (pending : List Nat)
  | unknownDispatcher (index : Nat)
  | unknownBinder (index : Nat)
  | unknownSite (index : Nat)
deriving DecidableEq, Repr

def Panic.text : Panic → String
  | operandCount kind received =>
    kind.tag ++ " binder received " ++ toString received ++ " operands"
  | excessNames names arguments =>
    "call shape has " ++ toString names ++ " names for " ++ toString arguments ++ " arguments"
  | deferredKnown kind pending =>
    kind.tag ++ " binder deferred on known operands " ++ toString pending
  | unknownDispatcher index => "no dispatcher " ++ toString index
  | unknownBinder index => "no binder " ++ toString index
  | unknownSite index => "no call site " ++ toString index

/-- An action on the state `σ` that may panic. -/
abbrev Act (σ : Type) := ExceptT Panic (StateM σ)

/-- An action on the state `σ` that may panic, and may fail as programs do. -/
abbrev Run (σ : Type) := ExceptT Fault (Act σ)

/-- How a run ended, if it did not panic. -/
abbrev Outcome (α : Type) := Except Fault α

variable {σ α β : Type}

/-- What an action answers from a state, and the state that it leaves. -/
def Act.exec (x : Act σ α) (s : σ) : Except Panic α × σ :=
  x.run.run s

/-- What a run answers from a state, and the state that it leaves. -/
def Run.exec (x : Run σ α) (s : σ) : Except Panic (Outcome α) × σ :=
  Act.exec x.run s

namespace Act

@[simp] theorem exec_pure (a : α) (s : σ) : exec (pure a) s = (.ok a, s) := rfl

@[simp] theorem exec_throw (p : Panic) (s : σ) :
    exec (throw p : Act σ α) s = (.error p, s) := rfl

@[simp] theorem exec_get (s : σ) : exec (get : Act σ σ) s = (.ok s, s) := rfl

@[simp] theorem exec_modify (f : σ → σ) (s : σ) :
    exec (modify f : Act σ Unit) s = (.ok (), f s) := rfl

@[simp] theorem exec_modifyGet (f : σ → α × σ) (s : σ) :
    exec (modifyGet f : Act σ α) s = (.ok (f s).1, (f s).2) := rfl

/-- The second action starts where the first one ended, unless that one panicked. -/
theorem exec_bind (x : Act σ α) (f : α → Act σ β) (s : σ) :
    exec (x >>= f) s = match exec x s with
      | (.ok a, t) => exec (f a) t
      | (.error p, t) => (.error p, t) := by
  have step : exec (x >>= f) s = ExceptT.bindCont f (exec x s).1 (exec x s).2 := rfl
  rw [step]
  cases exec x s with
  | mk r t => cases r <;> rfl

theorem exec_bind_ok {x : Act σ α} {f : α → Act σ β} {s t : σ} {a : α}
    (h : exec x s = (.ok a, t)) : exec (x >>= f) s = exec (f a) t := by
  rw [exec_bind, h]

theorem exec_bind_error {x : Act σ α} {f : α → Act σ β} {s t : σ} {p : Panic}
    (h : exec x s = (.error p, t)) : exec (x >>= f) s = (.error p, t) := by
  rw [exec_bind, h]

/-- To conclude something from an answer does nothing to the state. -/
theorem exec_bind_pure (x : Act σ α) (f : α → β) (s : σ) :
    exec (x >>= fun a => pure (f a)) s = ((exec x s).1.map f, (exec x s).2) := by
  rw [exec_bind]
  cases exec x s with
  | mk r t => cases r <;> rfl

end Act

namespace Run

@[simp] theorem exec_pure (a : α) (s : σ) : exec (pure a) s = (.ok (.ok a), s) := rfl

@[simp] theorem exec_throw (f : Fault) (s : σ) :
    exec (throw f : Run σ α) s = (.ok (.error f), s) := rfl

/-- The second run starts where the first one ended, unless that one failed or panicked. -/
theorem exec_bind (x : Run σ α) (f : α → Run σ β) (s : σ) :
    exec (x >>= f) s = match exec x s with
      | (.ok (.ok a), t) => exec (f a) t
      | (.ok (.error fault), t) => (.ok (.error fault), t)
      | (.error p, t) => (.error p, t) := by
  have step : exec (x >>= f) s = Act.exec (x.run >>= ExceptT.bindCont f) s := rfl
  rw [step, Act.exec_bind, ← exec]
  cases exec x s with
  | mk r t =>
    cases r with
    | error p => rfl
    | ok o => cases o <;> rfl

theorem exec_bind_ok {x : Run σ α} {f : α → Run σ β} {s t : σ} {a : α}
    (h : exec x s = (.ok (.ok a), t)) : exec (x >>= f) s = exec (f a) t := by
  rw [exec_bind, h]

/-- An action run as a program fails in no way. -/
theorem exec_lift (x : Act σ α) (s : σ) :
    exec (liftM x : Run σ α) s = ((Act.exec x s).1.map .ok, (Act.exec x s).2) := by
  have step : exec (liftM x : Run σ α) s = Act.exec (Except.ok <$> x) s := rfl
  rw [step, map_eq_pure_bind, Act.exec_bind]
  cases Act.exec x s with
  | mk r t => cases r <;> rfl

end Run

end Dispatch
