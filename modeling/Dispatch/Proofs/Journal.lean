import Dispatch.Engine.Lemmas
import Dispatch.Proofs.Judgement
import Dispatch.Proofs.Question

/-!
# Journals

A journal is a part of the host's state in which is written down, in order, what a resolver is asked
and which conversions it requests. `Resolver.journaled` is a resolver that writes so before it does
what it does anyway. Where the resolver itself keeps away from the journal (`Journal.Apart`), the
journal holds just the calls that binding makes: at most one question, and for a write the
conversions that the resolver requests, with those put to it that cannot be done otherwise
(`bind_asks_once`).

In the runtime: `bind` of the nine binders, as a `Resolver` sees it.
-/

namespace Dispatch

variable {σ : Type}

/-- What is written into a journal. -/
inductive Journal.Entry where
  | asked (q : Question)
  /-- The resolver requested the value as a member of some type. -/
  | requested (t : Ty)

/-- A part of the host's state in which entries are written one after the other. -/
structure Journal (σ : Type) where
  entries : σ → List Journal.Entry
  write : Journal.Entry → σ → σ
  entries_write : ∀ entry s, entries (write entry s) = entries s ++ [entry]

namespace Journal

/-- The entries in the journal of an engine. -/
def of (j : Journal σ) (e : Engine σ) : List Entry :=
  j.entries e.host

def note (j : Journal σ) (entry : Entry) : Act (Engine σ) Unit :=
  modify fun e => { e with host := j.write entry e.host }

/-- A change that adds to a journal, and what it adds is among `P`. -/
def Adds (j : Journal σ) (P : List Entry → Prop) (e t : Engine σ) : Prop :=
  ∃ added, P added ∧ j.of t = j.of e ++ added

/-- A resolver that does nothing to a journal but what the conversions do that it is handed: it
stays within whatever these stay within, and changes that the journal does not show. -/
def Apart (j : Journal σ) (r : Resolver (Engine σ)) : Prop :=
  ∀ R : Engine σ → Engine σ → Prop, (∀ e t, j.of t = j.of e → R e t) →
    (∀ e t u, R e t → R t u → R e u) → r.Within R

/-- What a request for the value as a member of type `t` leads to. The value is converted only if
the member does not take it as it is. -/
def conversion (value : Operand) (t : Ty) : List Entry :=
  if t.isObject = true ∨ (value.limitType == t) = true then [.requested t]
  else [.requested t, .asked (.convert (value.read 1) t)]

end Journal

/-- The resolver, with everything that it is asked and requests written down. -/
def Resolver.journaled (j : Journal σ) (r : Resolver (Engine σ)) : Resolver (Engine σ) where
  getMember t m := do
    j.note (.asked (.getMember t m))
    r.getMember t m
  setMember t m converted := do
    j.note (.asked (.setMember t m))
    r.setMember t m fun u => do
      j.note (.requested u)
      converted u
  getIndex target indexes := do
    j.note (.asked (.getIndex target indexes))
    r.getIndex target indexes
  setIndex target indexes value := do
    j.note (.asked (.setIndex target indexes value))
    r.setIndex target indexes value
  invokeMember identity call target args m := do
    j.note (.asked (.invokeMember identity call target args m))
    r.invokeMember identity call target args m
  bindParameters formal call args invoke := do
    j.note (.asked (.bindParameters formal call args invoke))
    r.bindParameters formal call args invoke
  binary operator left right := do
    j.note (.asked (.binary operator left right))
    r.binary operator left right
  unary operator operand := do
    j.note (.asked (.unary operator operand))
    r.unary operator operand
  convert source t := do
    j.note (.asked (.convert source t))
    r.convert source t

/-- The host with journaled resolvers. -/
def Host.journaled (j : Journal σ) (host : Host σ) : Host σ :=
  { host with resolver := fun i => (host.resolver i).journaled j }

/-- A pure resolver stays within every preorder that the conversions of a write stay within. -/
theorem Resolver.Pure.within {R : σ → σ → Prop} {r : Resolver σ} (h : r.Pure) (hrefl : ∀ s, R s s)
    (htrans : ∀ {s t u}, R s t → R t u → R s u) : r.Within R := by
  have hpure : ∀ {α : Type} {x : Act σ α}, (∃ a, x = pure a) → Act.Within R x := by
    rintro α _ ⟨a, rfl⟩
    exact Act.within_pure hrefl a
  refine
    { getMember := fun t m => hpure (h.getMember t m)
      setMember := ?_
      getIndex := fun target indexes => hpure (h.getIndex target indexes)
      setIndex := fun target indexes value => hpure (h.setIndex target indexes value)
      invokeMember := fun identity call target args m =>
        hpure (h.invokeMember identity call target args m)
      bindParameters := fun formal call args invoke =>
        hpure (h.bindParameters formal call args invoke)
      binary := fun operator left right => hpure (h.binary operator left right)
      unary := fun operator operand => hpure (h.unary operator operand)
      convert := fun source t => hpure (h.convert source t) }
  intro t m converted hconverted
  obtain ⟨i, hi⟩ := h.setMember t m
  rw [hi]
  clear hi
  induction i with
  | answer a => exact hpure ⟨a, rfl⟩
  | ask u next ih => exact Act.within_bind (R := R) htrans (hconverted u) ih

namespace Journal

variable {j : Journal σ} {P Q : List Entry → Prop} {r : Resolver (Engine σ)} {α : Type}

@[simp] theorem exec_note (entry : Entry) (e : Engine σ) :
    (j.note entry).exec e = (.ok (), { e with host := j.write entry e.host }) := rfl

theorem of_write (entry : Entry) (e : Engine σ) :
    j.of { e with host := j.write entry e.host } = j.of e ++ [entry] :=
  j.entries_write entry e.host

/-- What adds nothing adds the empty list of entries. -/
theorem adds_nil {e t : Engine σ} (h : j.of t = j.of e) : j.Adds (· = []) e t :=
  ⟨[], rfl, by rw [List.append_nil, h]⟩

theorem Adds.of_nil {e t : Engine σ} (h : j.Adds (· = []) e t) : j.of t = j.of e := by
  obtain ⟨_, rfl, hof⟩ := h
  rw [hof, List.append_nil]

/-- What is among `P` is among anything more. -/
theorem within_mono {x : Act (Engine σ) α} (hx : Act.Within (j.Adds P) x)
    (hPQ : ∀ l, P l → Q l) : Act.Within (j.Adds Q) x := by
  intro e
  obtain ⟨added, hadded, hof⟩ := hx e
  exact ⟨added, hPQ added hadded, hof⟩

/-- An entry is written before everything else that is added. -/
theorem within_note {x : Act (Engine σ) α} (entry : Entry) (hx : Act.Within (j.Adds P) x) :
    Act.Within (j.Adds fun l => ∃ l', P l' ∧ l = entry :: l') (do j.note entry; x) := by
  intro e
  obtain ⟨added, hadded, hof⟩ := hx { e with host := j.write entry e.host }
  rw [Act.exec_bind_ok (exec_note entry e)]
  refine ⟨entry :: added, ⟨added, hadded, rfl⟩, ?_⟩
  rw [hof, of_write, List.append_assoc, List.singleton_append]

/-- A resolver that keeps away from the journal adds nothing to it, if conversions do not. -/
theorem Apart.within_nil (h : j.Apart r) : r.Within (j.Adds (· = [])) :=
  h _ (fun _ _ => adds_nil) fun _ _ _ h k => adds_nil (k.of_nil.trans h.of_nil)

/-- What conversions add that are requested one after the other. -/
def Conversions (value : Operand) (l : List Entry) : Prop :=
  ∃ requests : List Ty, l = requests.flatMap (conversion value)

/-- A resolver that keeps away from the journal adds to it what the conversions add. -/
theorem Apart.within_conversions (h : j.Apart r) (value : Operand) :
    r.Within (j.Adds (Conversions value)) := by
  refine h _ (fun e t hof => ⟨[], ⟨[], rfl⟩, by rw [List.append_nil, hof]⟩) ?_
  rintro e t u ⟨_, ⟨first, rfl⟩, ht⟩ ⟨_, ⟨second, rfl⟩, hu⟩
  refine ⟨_, ⟨first ++ second, rfl⟩, ?_⟩
  rw [hu, ht, List.flatMap_append, List.append_assoc]

/-- A request for the value adds what the conversion leads to. -/
theorem within_request (h : j.Apart r) (value : Operand) (t : Ty) :
    Act.Within (j.Adds (Conversions value)) (do
      j.note (.requested t)
      Operation.converted (r.journaled j) value t) := by
  have hone : ∀ l, l = conversion value t → Conversions value l := by
    rintro _ rfl
    exact ⟨[t], by rw [List.flatMap_singleton]⟩
  unfold Operation.converted
  dsimp only
  split
  next hfits =>
    rw [Bool.or_eq_true] at hfits
    have hpure : Act.Within (j.Adds (· = [])) (pure (.ok (value.read 1)) : Act _ Resolution) :=
      fun e => adds_nil rfl
    refine within_mono (within_note (.requested t) hpure) ?_
    rintro _ ⟨_, rfl, rfl⟩
    exact hone _ (if_pos hfits).symm
  next hfits =>
    rw [Bool.or_eq_true] at hfits
    have hasked := within_note (.asked (.convert (value.read 1) t))
      (h.within_nil.convert (value.read 1) t)
    refine within_mono (within_note (.requested t) hasked) ?_
    rintro _ ⟨_, ⟨_, rfl, rfl⟩, rfl⟩
    exact hone _ (if_neg hfits).symm

/-- What a question adds to the journal, asked by a write of a value or by another operation: the
question, and behind it what the conversions add that the resolver requests. -/
def AddedBy (value : Operand) (q : Question) (l : List Entry) : Prop :=
  ∃ requests : List Ty, l = .asked q :: requests.flatMap (conversion value) ∧
    ((∀ t m, q ≠ .setMember t m) → requests = [])

theorem within_asked {x : Act (Engine σ) α} (value : Operand) (q : Question)
    (hx : Act.Within (j.Adds (· = [])) x) :
    Act.Within (j.Adds (AddedBy value q)) (do j.note (.asked q); x) := by
  refine within_mono (within_note (.asked q) hx) ?_
  rintro _ ⟨_, rfl, rfl⟩
  exact ⟨[], rfl, fun _ => rfl⟩

/-- A question to a resolver that keeps away from the journal adds to it once, and behind that the
conversions that are requested for a write. -/
theorem Apart.within_answer (h : j.Apart r) (operands : List Operand) (q : Question) :
    Act.Within (j.Adds (AddedBy (.stored operands) q)) ((r.journaled j).answer operands q) := by
  have hr := h.within_nil
  cases q with
  | setMember t m =>
    have hconverted := (h.within_conversions (.stored operands)).setMember t m _
      fun u => within_request h (.stored operands) u
    refine within_mono (within_note (.asked (.setMember t m)) hconverted) ?_
    rintro _ ⟨_, ⟨requests, rfl⟩, rfl⟩
    exact ⟨requests, rfl, fun hq => absurd rfl (hq t m)⟩
  | getMember t m => exact within_asked _ _ (hr.getMember t m)
  | getIndex target indexes => exact within_asked _ _ (hr.getIndex target indexes)
  | setIndex target indexes value => exact within_asked _ _ (hr.setIndex target indexes value)
  | invokeMember identity call target args m =>
    exact within_asked _ _ (hr.invokeMember identity call target args m)
  | bindParameters formal call args invoke =>
    exact within_asked _ _ (hr.bindParameters formal call args invoke)
  | binary operator left right => exact within_asked _ _ (hr.binary operator left right)
  | unary operator operand => exact within_asked _ _ (hr.unary operator operand)
  | convert source t => exact within_asked _ _ (hr.convert source t)

/-- A pure resolver keeps away from every journal. -/
theorem apart_of_pure (h : r.Pure) : j.Apart r :=
  fun _ hrefl htrans => h.within (fun e => hrefl e e rfl) (fun {e t u} => htrans e t u)

end Journal

namespace Engine

variable {host : Host σ} {e : Engine σ} {b : BinderRef} {x : Backdrop} {target : Operand}
  {rest : List Operand}

/-- What binding operands with values does to the host is what coming to the verdict does. -/
theorem host_bind_of_known (host : Host σ) (hx : e.backdrop b = some x)
    (hn : (target :: rest).length = x.operation.operandCount)
    (hknown : ∀ o ∈ target :: rest, o.isKnown = true) (fallback : Option Rule) :
    ((bind host b (target :: rest) fallback).exec e).2.host =
      ((x.operation.judge (x.scope (host.resolver b.dispatcher))
        (target :: rest)).exec e).2.host := by
  obtain ⟨d, binder, hd, hb, rfl⟩ := backdrop_eq_some.mp hx
  rw [exec_bind_of_known hd hb hn hknown]
  show _ = ((binder.operation.judge ⟨host.resolver b.dispatcher, d.types, d.emptyResult⟩
    (target :: rest)).exec e).2.host
  split
  next h => rw [h]
  next h => rw [h]

/-- Binding operands with values asks the resolver nothing where the target settles the operation:
whoever the host is, even one with a journal, stays as it is. Otherwise what is done to the host is
what the resolver does about the one question of the operation. In a journal that question is
followed by nothing, but for a write, where it is followed by the requests for the value, each with
its conversion unless the member takes the value as it is. -/
theorem bind_asks_once (hx : e.backdrop b = some x)
    (hn : (target :: rest).length = x.operation.operandCount)
    (hknown : ∀ o ∈ target :: rest, o.isKnown = true) (fallback : Option Rule) :
    (x.operation.Settled target → ∀ host : Host σ,
      ((bind host b (target :: rest) fallback).exec e).2.host = e.host) ∧
    (¬ x.operation.Settled target → ∃ q, x.operation.Asks x.types (target :: rest) q ∧
      (∀ host : Host σ, ((bind host b (target :: rest) fallback).exec e).2.host =
        (((host.resolver b.dispatcher).answer (target :: rest) q).exec e).2.host) ∧
      ∀ (j : Journal σ) (host : Host σ), j.Apart (host.resolver b.dispatcher) →
        ∃ requests : List Ty,
          j.of ((bind (host.journaled j) b (target :: rest) fallback).exec e).2 = j.of e ++
            .asked q :: requests.flatMap (Journal.conversion (.stored (target :: rest))) ∧
          (x.operation.kind ≠ .setMember → requests = [])) := by
  constructor
  · intro hsettled host
    obtain ⟨verdict, hverdict, -⟩ := Operation.judge_of_settled
      (x.scope (host.resolver b.dispatcher)) hn hsettled
    rw [host_bind_of_known host hx hn hknown, hverdict, Act.exec_pure]
  · intro hunsettled
    obtain ⟨q, hq⟩ := (Operation.settled_or_asks x.types hn).resolve_left hunsettled
    have hhost : ∀ host : Host σ, ((bind host b (target :: rest) fallback).exec e).2.host =
        (((host.resolver b.dispatcher).answer (target :: rest) q).exec e).2.host := by
      intro host
      obtain ⟨conclude, hjudge, -⟩ := Operation.judge_of_asks
        (s := x.scope (host.resolver b.dispatcher)) hq
      rw [host_bind_of_known host hx hn hknown, hjudge, Act.exec_bind_pure]
      rfl
    refine ⟨q, hq, hhost, fun j host hr => ?_⟩
    obtain ⟨added, ⟨requests, rfl, hrequests⟩, hof⟩ := hr.within_answer (target :: rest) q e
    refine ⟨requests, ?_, fun hkind => hrequests ?_⟩
    · rw [← hof, Journal.of, hhost]
      rfl
    · rintro t m rfl
      exact hkind (Operation.kind_of_asks_setMember hq)

end Engine

/-- The journal of a host that keeps nothing else. -/
def notebook : Journal (List Journal.Entry) where
  entries := id
  write entry entries := entries ++ [entry]
  entries_write _ _ := rfl

/-- A small host that keeps a notebook. -/
def notebookHost : Host (List Journal.Entry) where
  resolver _ := smallResolver
  routine _ args := pure (Value.first args)

/-- A small engine whose notebook is empty. -/
def notebookEngine (op : Operation) (limit : Nat) : Engine (List Journal.Entry) where
  dispatchers := (smallEngine op limit).dispatchers
  sites := (smallEngine op limit).sites
  host := []

/-- A text is written to a member: the resolver requests an integer, and the text is no integer. -/
theorem bind_asks_once_writing :
    ∃ added : List Journal.Entry,
      notebook.of ((Engine.bind (notebookHost.journaled notebook) ⟨0, 0⟩
        [.known (.integer 1), .known (.text "one")] none).exec
        (notebookEngine (.setMember ⟨"x", false⟩) 4)).2 = added ∧
      added = [.asked (.setMember .integer ⟨"x", false⟩), .requested .integer,
        .asked (.convert (.operand 1 .text) .integer)] ∧
      ∃ q, (Operation.setMember ⟨"x", false⟩).Asks .initial
          [.known (.integer 1), .known (.text "one")] q ∧
        ∃ requests : List Ty, added =
          .asked q :: requests.flatMap (Journal.conversion (.known (.text "one"))) := by
  have hasks : (Operation.setMember ⟨"x", false⟩).Asks .initial
      [.known (.integer 1), .known (.text "one")] (.setMember .integer ⟨"x", false⟩) :=
    .setMember rfl
  have hn : [Operand.known (.integer 1), .known (.text "one")].length = 2 := rfl
  obtain ⟨q, hq, -, hjournal⟩ := (Engine.bind_asks_once
    (e := notebookEngine (.setMember ⟨"x", false⟩) 4) (b := ⟨0, 0⟩)
    (x := smallBackdrop (.setMember ⟨"x", false⟩)) rfl hn (by decide) none).2
    (Operation.not_settled_of_asks hasks)
  obtain ⟨requests, hof, -⟩ := hjournal notebook notebookHost
    (Journal.apart_of_pure smallResolver_pure)
  exact ⟨_, hof, hof.symm, q, hq, requests, rfl⟩

end Dispatch
