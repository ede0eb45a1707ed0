import Dispatch.Proofs.Soundness

/-!
# What fragments produce

A fragment declares the type of what it produces. It keeps the promise if it is made of parts that
do (`Fragment.MadeOf`): constants of the types that they are declared with, operands read at types
that accept them, routines and functions that return what they are said to return, and coercions,
which check. A tree of such parts is well typed on operands that they are good for
(`wellTyped_of_madeOf`), so it produces values that its type accepts, and it calls nothing but what
may be called (`callee_callable`).

Where a type is met by several handles there is no telling what it accepts, so types are taken from
a set where the number of a type says which handle it is (`Ty.Canonical`).

In the runtime: `Fragment.coerce` and `evaluate`, and `HostType.accepts`.
-/

namespace Dispatch

variable {σ : Type}

/-- A set of types with the built-in ones, told apart by their numbers, in which nothing but the
built-in types has truth values or numbers. -/
structure Ty.Canonical (T : Ty → Prop) : Prop where
  builtin : ∀ t ∈ Ty.builtins, T t
  unique : ∀ {s t}, T s → T t → s.id = t.id → s = t
  boolean : ∀ {t}, T t → t.kind = .boolean → t.id = Ty.boolean.id
  integer : ∀ {t}, T t → t.kind = .integer → t.id = Ty.integer.id
  number : ∀ {t}, T t → t.kind = .number → t.id = Ty.number.id

namespace Ty.Canonical

variable {T : Ty → Prop} {s t : Ty}

theorem eq_of_beq (h : Canonical T) (hs : T s) (ht : T t) (he : (s == t) = true) : s = t :=
  h.unique hs ht (Ty.beq_iff.mp he)

theorem object (h : Canonical T) : T .object := h.builtin _ (by simp [builtins])

theorem text (h : Canonical T) : T .text := h.builtin _ (by simp [builtins])

theorem result (h : Canonical T) : T .result := h.builtin _ (by simp [builtins])

theorem regular (h : Canonical T) (ht : T t) : t.Regular :=
  ⟨h.boolean ht, h.integer ht, h.number ht⟩

end Ty.Canonical

/-- Whatever a body returns, a slot of the type takes it. -/
def Body.Keeps (call : Body → List Value → Run σ Value) (body : Body) (t : Ty) : Prop :=
  ∀ args v, (call body args).Gives v → t.accepts v = true

/-- What there is to make fragments of, whatever the operands are. -/
structure Materials where
  /-- The types of nodes. -/
  type : Ty → Prop
  /-- Routines, each with the type that it is declared to return. -/
  body : Body → Ty → Prop

/-- What there is to make fragments of. -/
structure Parts extends Materials where
  /-- Operands by position, each with the type at which it is read. -/
  read : Nat → Ty → Prop
  /-- Functions to call, each with the type that it is declared to return. -/
  call : Fragment → Ty → Prop

namespace Fragment

mutual

/-- A fragment made of nothing but these parts. -/
def MadeOf (p : Parts) : Fragment → Prop
  | constant v t => p.type t ∧ t.accepts v = true
  | zero t => p.type t
  | operand position t => p.read position t
  | raise _ t => p.type t
  | host _ args body t => p.type t ∧ p.body body t ∧ AllMadeOf p args
  | invoke callee args t => p.call callee t ∧ MadeOf p callee ∧ AllMadeOf p args
  | coerced inner t => p.type t ∧ MadeOf p inner
  | sequence first next => MadeOf p first ∧ MadeOf p next

def AllMadeOf (p : Parts) : List Fragment → Prop
  | [] => True
  | f :: fs => MadeOf p f ∧ AllMadeOf p fs

end

mutual

/-- What a fragment calls as functions. -/
def callees : Fragment → List Fragment
  | constant _ _ | zero _ | operand _ _ | raise _ _ => []
  | host _ args _ _ => calleesAll args
  | invoke callee args _ => callee :: (callees callee ++ calleesAll args)
  | coerced inner _ => callees inner
  | sequence first next => callees first ++ callees next

def calleesAll : List Fragment → List Fragment
  | [] => []
  | f :: fs => callees f ++ calleesAll fs

end

theorem allMadeOf_iff {p : Parts} {fs : List Fragment} :
    AllMadeOf p fs ↔ ∀ f ∈ fs, f.MadeOf p := by
  induction fs with
  | nil => exact iff_of_true trivial nofun
  | cons f fs ih => rw [AllMadeOf, ih, List.forall_mem_cons]

/-- The types of what fragments are made of are the types of fragments. -/
theorem type_of_madeOf {p : Parts} (hread : ∀ {i t}, p.read i t → p.type t)
    (hcall : ∀ {callee t}, p.call callee t → p.type t) :
    ∀ f : Fragment, f.MadeOf p → p.type f.type
  | constant _ _, h => h.1
  | zero _, h => h
  | operand _ _, h => hread h
  | raise _ _, h => h
  | host _ _ _ _, h => h.1
  | invoke _ _ _, h => hcall h.1
  | coerced _ _, h => h.1
  | sequence _ next, h => type_of_madeOf hread hcall next h.2

end Fragment

/-- Parts that keep their promises on operands: what is read is there as it should be, and what is
called is a function that returns what it should. -/
structure Parts.Good (p : Parts) (call : Body → List Value → Run σ Value) (operands : List Value) :
    Prop where
  types : Ty.Canonical p.type
  body : ∀ {body t}, p.body body t → body.Keeps call t
  read : ∀ {i t}, p.read i t → p.type t ∧ ∀ v, operands[i]? = some v → t.accepts v = true
  call : ∀ {callee t}, p.call callee t → p.type t ∧ ∀ v, (callee.evaluate call operands).Gives v →
    ∃ c, v = .callable c ∧ c.body.Keeps call t

namespace Fragment

variable {p : Parts} {call : Body → List Value → Run σ Value} {operands : List Value}

mutual

/-- A fragment made of good parts is well typed. -/
theorem wellTyped_of_madeOf (hp : p.Good call operands) :
    ∀ f : Fragment, f.MadeOf p → f.WellTyped call operands
  | constant _ _, hf => hf.2
  | zero _, hf => hp.types.regular hf
  | operand _ _, hf => (hp.read hf).2
  | raise _ _, _ => trivial
  | host _ args _ _, hf =>
    ⟨fun vs _ => hp.body hf.2.1 vs, allWellTyped_of_allMadeOf hp args hf.2.2⟩
  | invoke callee args t, hf => by
    refine ⟨fun c hc vs _ => ?_, wellTyped_of_madeOf hp callee hf.2.1,
      allWellTyped_of_allMadeOf hp args hf.2.2⟩
    -- the function that is called is one of those that there are to call
    obtain ⟨c', heq, hkeeps⟩ := (hp.call hf.1).2 (.callable c) hc
    cases heq
    exact hkeeps vs
  | coerced inner _, hf => ⟨hp.types.regular hf.1, wellTyped_of_madeOf hp inner hf.2⟩
  | sequence first next, hf =>
    ⟨wellTyped_of_madeOf hp first hf.1, wellTyped_of_madeOf hp next hf.2⟩

theorem allWellTyped_of_allMadeOf (hp : p.Good call operands) :
    ∀ fs : List Fragment, AllMadeOf p fs → AllWellTyped call operands fs
  | [], _ => trivial
  | f :: fs, hf => ⟨wellTyped_of_madeOf hp f hf.1, allWellTyped_of_allMadeOf hp fs hf.2⟩

end

/-- A fragment made of good parts produces values that its type accepts. -/
theorem evaluate_accepts (hp : p.Good call operands) (f : Fragment) (hf : f.MadeOf p) :
    ∀ v, (f.evaluate call operands).Gives v → f.type.accepts v = true :=
  accepts_of_gives f (wellTyped_of_madeOf hp f hf)

mutual

/-- What a fragment calls is among what it is made of. -/
theorem call_of_mem_callees {callee : Fragment} :
    ∀ f : Fragment, f.MadeOf p → callee ∈ f.callees → ∃ t, p.call callee t
  | constant _ _, _, h | zero _, _, h | operand _ _, _, h | raise _ _, _, h =>
    absurd h List.not_mem_nil
  | host _ args _ _, hf, h => call_of_mem_calleesAll args hf.2.2 h
  | invoke f args t, hf, h => by
    rw [callees, List.mem_cons, List.mem_append] at h
    rcases h with rfl | h | h
    · exact ⟨t, hf.1⟩
    · exact call_of_mem_callees f hf.2.1 h
    · exact call_of_mem_calleesAll args hf.2.2 h
  | coerced inner _, hf, h => call_of_mem_callees inner hf.2 h
  | sequence first next, hf, h => by
    rw [callees, List.mem_append] at h
    rcases h with h | h
    · exact call_of_mem_callees first hf.1 h
    · exact call_of_mem_callees next hf.2 h

theorem call_of_mem_calleesAll {callee : Fragment} :
    ∀ fs : List Fragment, AllMadeOf p fs → callee ∈ calleesAll fs → ∃ t, p.call callee t
  | [], _, h => absurd h List.not_mem_nil
  | f :: fs, hf, h => by
    rw [calleesAll, List.mem_append] at h
    rcases h with h | h
    · exact call_of_mem_callees f hf.1 h
    · exact call_of_mem_calleesAll fs hf.2 h

end

/-- A fragment made of good parts calls nothing but functions. -/
theorem callee_callable (hp : p.Good call operands) {f : Fragment} (hf : f.MadeOf p)
    {callee : Fragment} (hcallee : callee ∈ f.callees) {v : Value}
    (h : (callee.evaluate call operands).Gives v) : ∃ c, v = .callable c := by
  obtain ⟨t, ht⟩ := call_of_mem_callees f hf hcallee
  obtain ⟨c, hc, -⟩ := (hp.call ht).2 v h
  exact ⟨c, hc⟩

end Fragment

end Dispatch
