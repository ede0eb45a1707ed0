import Dispatch.Proofs.Bookkeeping
import Dispatch.Proofs.View

/-!
# A small host

A host on which theorems about all hosts are tried. Its programs can apply operators to two
operands, store integers in members, and call functions that have as many parameters as there are
arguments; whatever is called answers with its first argument. It keeps no state of its own, and its
resolver goes by views (`smallResolver_byView`).

In the runtime: a `Resolver`.
-/

namespace Dispatch

variable {σ : Type}

/-- A resolver that can apply operators to two operands, store integers and call functions. -/
def smallResolver : Resolver σ where
  getMember _ _ := pure .notFound
  setMember target m converted := do
    match ← converted .integer with
    | .ok value =>
      pure (.resolved (.host (m.name ++ "=") [.operand 0 target, value] (.native 0) .void))
    | .error _ => pure .notWritable
  getIndex _ _ := pure (.error (.other "no indexers"))
  setIndex _ _ _ := pure (.error (.other "no indexers"))
  invokeMember _ _ _ _ _ := pure (.ok none)
  bindParameters formal _ args invoke :=
    if formal.length = args.length then
      pure (.ok (invoke (args.mapIdx fun i arg => arg.read (i + 1))))
    else pure (.error (.parameterMismatch "invoke" args.length))
  binary operator left right :=
    pure (.ok (.host operator.symbol [left.read 0, right.read 1] (.native 0) .object))
  unary _ _ := pure (.error (.other "no operators on one operand"))
  convert source t := pure (.error (.noConversion source.type.name t.name))

/-- A host with that resolver, whose routines answer with their first argument. -/
def smallHost : Host Unit where
  resolver _ := smallResolver
  routine _ args := pure (Value.first args)

/-- An engine with one binder and one call site, which keeps no rule yet. -/
def smallEngine (op : Operation) (limit : Nat) : Engine Unit where
  dispatchers := #[{ Dispatcher.new {} .initial ⟨0⟩ with binders := #[{ operation := op }] }]
  sites := #[{ binder := ⟨0, 0⟩, kind := op.kind, maxRules := limit }]
  host := ()

/-- The one call site of a small engine. -/
def smallSite (op : Operation) (limit : Nat) : Site where
  binder := ⟨0, 0⟩
  kind := op.kind
  maxRules := limit

/-- What a small engine binds with. -/
def smallBackdrop (op : Operation) : Backdrop :=
  ⟨op, .initial, .result ⟨0⟩ []⟩

theorem smallResolver_byView : (smallResolver : Resolver σ).ByView where
  getMember := ⟨fun _ _ => .notFound, fun _ _ => rfl⟩
  getIndex := ⟨fun _ _ => .error (.other "no indexers"), fun _ _ => rfl⟩
  setIndex := ⟨fun _ _ _ => .error (.other "no indexers"), fun _ _ _ => rfl⟩
  invokeMember := ⟨fun _ _ _ _ _ => .ok none, fun _ _ _ _ _ => rfl⟩
  binary := ⟨fun operator left right => .ok (.host operator.symbol
    [.operand 0 left.limitType, .operand 1 right.limitType] (.native 0) .object), fun _ _ _ => rfl⟩
  unary := ⟨fun _ _ => .error (.other "no operators on one operand"), fun _ _ => rfl⟩
  convert := ⟨fun source t => .error (.noConversion source.type.name t.name), fun _ _ => rfl⟩

namespace Engine

theorem unused_smallEngine (op : Operation) (limit : Nat) :
    Unused 0 (smallSite op limit) (smallBackdrop op) (smallEngine op limit) :=
  ⟨rfl, rfl, rfl, rfl⟩

theorem smallHost_courteous (index : Nat) (b : BinderRef) (V : List Value → Prop) :
    Courteous smallHost index b V :=
  fun _ _ e => .refl e

theorem smallHost_discreet (index : Nat) (b : BinderRef) (V : List Value → Prop)
    (e₀ f₀ : Engine Unit) : Discreet smallHost index b V e₀ f₀ :=
  fun _ args => Run.agree_pure (Value.first args)

end Engine

end Dispatch
