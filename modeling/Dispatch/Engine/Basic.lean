import Dispatch.Binding.Verdict
import Dispatch.Dispatcher.Basic
import Dispatch.Site.Basic

/-!
# The engine

The engine is the state that everything works on: the dispatchers, the call sites, and whatever the
host keeps for itself. The host supplies two things, the answers of its resolvers and the doing of
its routines, and both may work on the engine while they run.

`bind` asks a binder for a rule and `execute` runs a call site. In both, what was read of the engine
before the host was asked is read again afterwards where it matters, so that a call site executed
inside its own execution keeps the rules of the inner one.

In the runtime: `Binder.bind`, `CallSite` (`execute`, `bind`, `record`) and `Runtime.call_site`,
which is `newSiteOf`.
-/

namespace Dispatch

/-- Dispatchers, call sites, and the state of the host. -/
structure Engine (σ : Type) where
  dispatchers : Array Dispatcher := #[]
  sites : Array Site := #[]
  /-- The next identity that nothing has. -/
  fresh : Nat := 0
  host : σ

/-- What the host can do. -/
structure Host (σ : Type) where
  /-- The answers of the resolver of a dispatcher. -/
  resolver (dispatcher : Nat) : Resolver (Engine σ)
  routine (index : Nat) (args : List Value) : Run (Engine σ) Value

namespace Engine

variable {σ : Type}

/-- An identity that nothing had before. -/
def identity : Act (Engine σ) Identity :=
  modifyGet fun e => (⟨e.fresh⟩, { e with fresh := e.fresh + 1 })

/-- A result list with a storage of its own. -/
def newResult (values : List Value) : Act (Engine σ) Value := do
  return .result (← identity) values

/-- A value as a result list: a list as it is, any other value in a list of its own. -/
def pack : List Value → Act (Engine σ) Value
  | [] => newResult []
  | .result storage values :: _ => pure (.result storage values)
  | v :: _ => newResult [v]

/-- What a body does. -/
def call (host : Host σ) : Body → List Value → Run (Engine σ) Value
  | .native index, args => host.routine index args
  | .pack, args => ExceptT.lift (pack args)

def evaluate (host : Host σ) (f : Fragment) (operands : List Value) : Run (Engine σ) Value :=
  f.evaluate (call host) operands

def dispatcher (index : Nat) : Act (Engine σ) Dispatcher := do
  match (← get).dispatchers[index]? with
  | some d => pure d
  | none => throw (.unknownDispatcher index)

def modifyDispatcher (index : Nat) (f : Dispatcher → Dispatcher) : Act (Engine σ) Unit :=
  modify fun e => { e with dispatchers := e.dispatchers.modify index f }

def newDispatcher (settings : Settings) (types : Registry) : Act (Engine σ) Nat := do
  let storage ← identity
  modifyGet fun e =>
    (e.dispatchers.size,
      { e with dispatchers := e.dispatchers.push (.new settings types storage) })

/-- Works on a dispatcher with a function that also answers something. -/
def onDispatcher {α : Type} (index : Nat) (f : Dispatcher → α × Dispatcher) :
    Act (Engine σ) α := do
  let (answer, d) := f (← dispatcher index)
  modifyDispatcher index fun _ => d
  pure answer

/-- The shared binder of an operation. -/
def request (index : Nat) (op : Operation) : Act (Engine σ) BinderRef := do
  return ⟨index, ← onDispatcher index (·.request op)⟩

/-- The shared binder of an operation on a member that a program names. -/
def requestMember (index : Nat) (operation : MemberName → Operation) (name : String)
    (ignoreCase : Option Bool) : Act (Engine σ) BinderRef := do
  request index (operation ((← dispatcher index).member name ignoreCase))

def binder (b : BinderRef) : Act (Engine σ) Binder := do
  match (← dispatcher b.dispatcher).binders[b.binder]? with
  | some binder => pure binder
  | none => throw (.unknownBinder b.binder)

/-- Counts in the tally of a binder. -/
def count (dispatcher binder : Nat) (f : Tally → Tally) : Act (Engine σ) Unit :=
  modifyDispatcher dispatcher (·.modifyTally binder f)

/-- Binds an operation whose operands were counted already. -/
def bindCounted (host : Host σ) (b : BinderRef) (operands : List Operand)
    (fallback : Option Rule) : Act (Engine σ) Binding := do
  let binder ← binder b
  match Operand.pending operands with
  | [] =>
    let d ← dispatcher b.dispatcher
    let scope := ⟨host.resolver b.dispatcher, d.types, d.emptyResult⟩
    let verdict ← binder.operation.judge scope operands
    let rule := verdict.rule fallback
    count b.dispatcher (binder.creditee b.binder operands) (·.countRule rule)
    pure (.bound rule)
  | pending =>
    count b.dispatcher b.binder (·.countDeferral)
    pure (.deferred pending)

/-- Asks a binder for a rule: put off while an operand has no value, and otherwise the rule of the
verdict. A row of operands of the wrong length is a mistake of the program. -/
def bind (host : Host σ) (b : BinderRef) (operands : List Operand) (fallback : Option Rule) :
    Act (Engine σ) Binding := do
  let operation := (← binder b).operation
  if operands.length = operation.operandCount then bindCounted host b operands fallback
  else throw (.operandCount operation.kind operands.length)

def site (index : Nat) : Act (Engine σ) Site := do
  match (← get).sites[index]? with
  | some s => pure s
  | none => throw (.unknownSite index)

def modifySite (index : Nat) (f : Site → Site) : Act (Engine σ) Unit :=
  modify fun e => { e with sites := e.sites.modify index f }

def newSite (b : BinderRef) (maxRules : Nat) (fallback : Option Rule) : Act (Engine σ) Nat := do
  let kind := (← binder b).operation.kind
  modifyGet fun e =>
    (e.sites.size, { e with sites := e.sites.push { binder := b, kind, fallback, maxRules } })

/-- Makes a call site that keeps as many rules as a dispatcher is set to keep. -/
def newSiteOf (index : Nat) (b : BinderRef) (fallback : Option Rule) : Act (Engine σ) Nat := do
  newSite b (← dispatcher index).settings.maxRules fallback

/-- The rule that a call site runs on operand values: one it kept, or else one bound now. -/
def ruleFor (host : Host σ) (index : Nat) (operands : List Value) : Act (Engine σ) Rule := do
  let s ← site index
  let (found, s) := s.lookUp operands
  modifySite index fun _ => s
  match found with
  | some rule => pure rule
  | none =>
    match ← bind host s.binder (operands.map .known) s.fallback with
    | .bound rule =>
      modifySite index (·.keep rule operands)
      pure rule
    | .deferred pending => throw (.deferredKnown s.kind pending)

/-- Performs the operation of a call site on operand values. -/
def execute (host : Host σ) (index : Nat) (operands : List Value) : Run (Engine σ) Value := do
  let rule ← ruleFor host index operands
  rule.run (call host) operands

end Engine

end Dispatch
