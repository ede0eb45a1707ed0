import Dispatch.Dispatcher.Basic

/-!
# Listing what is shared

For people who want to know what a program does dynamically: the shared operations of each kind in
the order of their labels, with the number of different guards that their binders have seen.

In the runtime: `cached_shapes` and `dump_rule_caches`.
-/

namespace Dispatch.Dispatcher

/-- The shared operations of a kind with their labels, in the order of the labels and among equal
ones in the order of first requests. -/
def labelled (d : Dispatcher) (kind : Operation.Kind) : List (String × Nat) :=
  ((d.sharedOf kind).map fun (op, number) => (op.label, number)).mergeSort fun a b => a.1 ≤ b.1

/-- The width of the line under a heading. -/
def ruleWidth : Nat := 66

/-- The listing of a kind: heading, line, one line for each shared operation, and a blank one. -/
def listingOf (d : Dispatcher) (kind : Operation.Kind) : List String :=
  [kind.heading, String.ofList (List.replicate ruleWidth '=')] ++
    (d.labelled kind).map (fun (label, number) =>
      label ++ ": " ++ toString (d.tally number).variants.length) ++
    [""]

def listing (d : Dispatcher) : String :=
  String.join ((Operation.Kind.all.flatMap d.listingOf).map (· ++ "\n"))

def renderShared (d : Dispatcher) : String :=
  "DispatchCache \x7b binders: " ++ toString d.size ++ ", hits: " ++ toString d.hits ++
    ", misses: " ++ toString d.misses ++ ", clears: " ++ toString d.clears ++ " \x7d"

/-- The types and the settings, in short. -/
def renderContext (d : Dispatcher) : String :=
  "RuntimeContext \x7b types: " ++ d.types.render ++ ", config: " ++ d.settings.render ++ ", .. \x7d"

end Dispatch.Dispatcher
