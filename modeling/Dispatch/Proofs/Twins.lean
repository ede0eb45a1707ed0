import Mathlib.Data.List.Forall2
import Dispatch.Proofs.Noninterference
import Dispatch.Proofs.Session

/-!
# Engines that differ in their binders

Two engines are `Twins` if they are the same but for the binders, their tallies and what is shared,
and where the one has a binder the other has one for an operation with the same canonical form. The
canonical form is all that binding needs of an operation (`judge_canonical`), and nothing ever looks
at tallies. So with pure resolvers binders that match answer the same (`bind_twins`), call sites find
and bind the same rules (`ruleFor_twins`), and executions come to the same (`execute_twins`), as long
as routines do not look at binders either (`Indifferent`).

Whether a request is met with a binder for what was asked is where keys come in: what is shared under
the key of an operation has its canonical form, as long as one number stands for one type
(`Tidy.serves_get`).

In the runtime: `DispatchCache.get_or_create`, `Binder.bind` and `CallSite.execute`.
-/

namespace Dispatch

variable {σ : Type} {T : Ty → Prop}

namespace Operation

/-- If the operation is a conversion, it is one to these types. -/
def Over (T : Ty → Prop) (op : Operation) : Prop :=
  ∀ t, op = .convert t → T t

theorem Over.canonical {op : Operation} (h : op.Over T) : op.canonical.Over T := by
  intro t ht
  cases op with
  | convert u => exact h t ht
  | _ => cases ht

theorem kind_canonical (op : Operation) : op.canonical.kind = op.kind := by
  cases op <;> rfl

theorem operandCount_canonical (op : Operation) : op.canonical.operandCount = op.operandCount := by
  cases op <;> rfl

/-- An operation comes to the same verdict as its canonical form. -/
theorem judge_canonical (s : Scope σ) (op : Operation) (operands : List Operand) :
    op.canonical.judge s operands = op.judge s operands := by
  cases op with
  | binary request =>
    match operands with
    | [] => rfl
    | [target] =>
      unfold judge
      simp only [canonical, ofOperator, onNil, ite_self]
      rfl
    | target :: right :: more =>
      unfold judge
      simp only [canonical, ofOperator, onNil, ite_self, resolve]
      rw [show (⟨request.operator, request.integerDivision⟩ : BinaryRequest) = request from rfl,
        request.meaning_canonical]
      rfl
  | _ => rfl

/-- Operations with one canonical form take as many operands and come to the same verdicts. -/
theorem alike_of_canonical {a b : Operation} (h : a.canonical = b.canonical) :
    a.kind = b.kind ∧ a.operandCount = b.operandCount ∧
      ∀ (s : Scope σ) operands, a.judge s operands = b.judge s operands := by
  refine ⟨?_, ?_, fun s operands => ?_⟩
  · rw [← a.kind_canonical, h, b.kind_canonical]
  · rw [← a.operandCount_canonical, h, b.operandCount_canonical]
  · rw [← a.judge_canonical, h, b.judge_canonical]

/-- Where one number stands for one type, interchangeable operations are the same. -/
theorem eq_of_beq_of_over (hT : ∀ {s t}, T s → T t → s.id = t.id → s = t) {a b : Operation}
    (ha : a.Over T) (hb : b.Over T) (h : (a == b) = true) : a = b := by
  rcases beq_iff.mp h with rfl | ⟨s, t, rfl, rfl, hid⟩
  · rfl
  · rw [hT (ha s rfl) (hb t rfl) hid]

end Operation

namespace Dispatcher

variable {d d' : Dispatcher} {op : Operation} {n : Nat}

/-- What is shared is for its operation, and is linked, and conversions are to these types. -/
structure Tidy (T : Ty → Prop) (d : Dispatcher) : Prop where
  wired : d.Wired
  typed : ∀ op n, (op, n) ∈ d.shared → op.Over T

theorem mem_shared_requestAlone {entry : Operation × Nat}
    (h : entry ∈ (d.requestAlone op).2.shared) : entry ∈ d.shared ∨ entry.1 = op := by
  unfold requestAlone at h
  split at h
  next => exact .inl h
  next =>
    rcases List.mem_append.mp h with hold | hnew
    · exact .inl hold
    · rw [List.mem_singleton.mp hnew]
      exact .inr rfl

/-- A request shares nothing but what was asked for, and calls of values. -/
theorem mem_shared_request {entry : Operation × Nat} (h : entry ∈ (d.request op).2.shared) :
    entry ∈ d.shared ∨ entry.1 = op ∨ ∃ call, entry.1 = .invoke call := by
  cases op with
  | invokeMember m call =>
    simp only [request] at h
    split at h
    next => exact .inl h
    next =>
      rcases List.mem_append.mp h with hfirst | hnew
      · rcases mem_shared_requestAlone hfirst with hold | hcall
        · exact .inl hold
        · exact .inr (.inr ⟨call, hcall⟩)
      · rw [List.mem_singleton.mp hnew]
        exact .inr (.inl rfl)
  | _ => exact (mem_shared_requestAlone h).imp_right .inl

namespace Tidy

theorem of_retains (h : d.Tidy T) (hr : d.Retains d') (hshared : d'.shared = d.shared) :
    d'.Tidy T where
  wired := h.wired.of_retains hr hshared
  typed op n hmem := by
    rw [hshared] at hmem
    exact h.typed op n hmem

theorem modifyTally (h : d.Tidy T) (k : Nat) (f : Tally → Tally) : (d.modifyTally k f).Tidy T :=
  h.of_retains (.modifyTally d k f) rfl

theorem request (h : d.Tidy T) (hop : op.Over T) : (d.request op).2.Tidy T where
  wired := h.wired.request op
  typed op' n hmem := by
    rcases mem_shared_request hmem with hold | rfl | ⟨call, hcall⟩
    · exact h.typed op' n hold
    · exact hop
    · intro t ht
      cases hcall.symm.trans ht

theorem get (h : d.Tidy T) (hop : op.Over T) (supply : Supply) : (supply.get d op).2.Tidy T := by
  cases supply with
  | shared => exact h.request hop.canonical
  | keyed => exact h.of_retains (.brandNew d op.canonical) (shared_brandNew d op.canonical)
  | asked => exact h.of_retains (.brandNew d op) (shared_brandNew d op)

theorem drop (h : d.Tidy T) (supply : Supply) : (supply.drop d).Tidy T := by
  cases supply with
  | shared => exact ⟨.clear d, nofun⟩
  | keyed | asked => exact h

/-- A request is met with a binder for what was asked, or for another operation of the same
canonical form. -/
theorem serves_get (h : d.Tidy T) (hT : ∀ {s t}, T s → T t → s.id = t.id → s = t)
    (hop : op.Over T) (supply : Supply) :
    ∃ op' direct, (supply.get d op).2.Serves (supply.get d op).1 op' direct ∧
      op'.canonical = op.canonical := by
  cases supply with
  | shared =>
    have htidy := h.request hop.canonical
    obtain ⟨op', hmem, hsame⟩ := mem_shared_of_lookup (lookup_request d op.canonical)
    obtain ⟨direct, hs⟩ := htidy.wired.made op' _ hmem
    have heq := Operation.eq_of_beq_of_over hT hop.canonical (htidy.typed op' _ hmem) hsame
    refine ⟨op', direct, hs, ?_⟩
    rw [← heq, Operation.canonical_canonical]
  | keyed =>
    obtain ⟨direct, hs⟩ := serves_brandNew d op.canonical
    exact ⟨op.canonical, direct, hs, op.canonical_canonical⟩
  | asked =>
    obtain ⟨direct, hs⟩ := serves_brandNew d op
    exact ⟨op, direct, hs, rfl⟩

end Tidy

theorem types_requestAlone (d : Dispatcher) (op : Operation) :
    (d.requestAlone op).2.types = d.types := by
  unfold requestAlone
  split <;> rfl

theorem types_get (supply : Supply) (d : Dispatcher) (op : Operation) :
    (supply.get d op).2.types = d.types := by
  have hrequest : ∀ op', (d.request op').2.types = d.types := by
    intro op'
    cases op' with
    | invokeMember m call =>
      simp only [request]
      split
      next => rfl
      next => exact types_requestAlone _ (.invoke call)
    | _ => exact types_requestAlone d _
  have hnew : ∀ op', (d.brandNew op').2.types = d.types := by
    intro op'
    cases op' <;> rfl
  cases supply with
  | shared => exact hrequest op.canonical
  | keyed => exact hnew op.canonical
  | asked => exact hnew op

/-- Two dispatchers that are the same but for their binders, and in both of which what is shared is
for its operation. -/
structure Twin (T : Ty → Prop) (d d' : Dispatcher) : Prop where
  settings : d'.settings = d.settings
  types : d'.types = d.types
  emptyResult : d'.emptyResult = d.emptyResult
  left : d.Tidy T
  right : d'.Tidy T

theorem Twin.modifyTally (h : d.Twin T d') (k k' : Nat) (f f' : Tally → Tally) :
    (d.modifyTally k f).Twin T (d'.modifyTally k' f') :=
  ⟨h.settings, h.types, h.emptyResult, h.left.modifyTally k f, h.right.modifyTally k' f'⟩

theorem Twin.get (h : d.Twin T d') (hop : op.Over T) (supply supply' : Supply) :
    (supply.get d op).2.Twin T (supply'.get d' op).2 where
  settings := (supply'.retains_get d' op).settings.trans
    (h.settings.trans (supply.retains_get d op).settings.symm)
  types := by rw [types_get, types_get, h.types]
  emptyResult := (supply'.retains_get d' op).emptyResult.trans
    (h.emptyResult.trans (supply.retains_get d op).emptyResult.symm)
  left := h.left.get hop supply
  right := h.right.get hop supply'

theorem Twin.drop (h : d.Twin T d') (supply supply' : Supply) :
    (supply.drop d).Twin T (supply'.drop d') where
  settings := (supply'.retains_drop d').settings.trans
    (h.settings.trans (supply.retains_drop d).settings.symm)
  types := by
    have htypes : ∀ (supply : Supply) (d : Dispatcher), (supply.drop d).types = d.types := by
      intro supply d
      cases supply <;> rfl
    rw [htypes, htypes, h.types]
  emptyResult := (supply'.retains_drop d').emptyResult.trans
    (h.emptyResult.trans (supply.retains_drop d).emptyResult.symm)
  left := h.left.drop supply
  right := h.right.drop supply'

end Dispatcher

section Correspondence

theorem rel_imp {α β : Type} {R S : α → β → Prop} {x : Option α} {y : Option β}
    (h : Option.Rel R x y) (hRS : ∀ a b, R a b → S a b) : Option.Rel S x y := by
  cases h with
  | none => exact .none
  | some hab => exact .some (hRS _ _ hab)

/-- What corresponds still does after changes that keep that up. -/
theorem rel_map {α β γ δ : Type} {R : α → β → Prop} {S : γ → δ → Prop} {x : Option α} {y : Option β}
    (h : Option.Rel R x y) {g : α → γ} {g' : β → δ} (hg : ∀ a b, R a b → S (g a) (g' b)) :
    Option.Rel S (x.map g) (y.map g') := by
  cases h with
  | none => exact .none
  | some hab => exact .some (hg _ _ hab)

theorem some_of_rel {α β : Type} {R : α → β → Prop} {x : Option α} {y : Option β}
    (h : Option.Rel R x y) {a : α} (hx : x = some a) : ∃ b, y = some b ∧ R a b := by
  subst hx
  cases h with
  | some hab => exact ⟨_, rfl, hab⟩

theorem none_of_rel {α β : Type} {R : α → β → Prop} {x : Option α} {y : Option β}
    (h : Option.Rel R x y) (hx : x = none) : y = none := by
  subst hx
  cases h with
  | none => rfl

/-- Arrays whose elements correspond still do after the same change to both. -/
theorem rel_modify {α β : Type} {R : α → β → Prop} {xs : Array α} {ys : Array β}
    (h : ∀ i : Nat, Option.Rel R xs[i]? ys[i]?) {g : α → α} {g' : β → β}
    (hg : ∀ a b, R a b → R (g a) (g' b)) (j i : Nat) :
    Option.Rel R (xs.modify j g)[i]? (ys.modify j g')[i]? := by
  rw [Array.getElem?_modify, Array.getElem?_modify]
  split
  next => exact rel_map (h i) hg
  next => exact h i

theorem size_eq_of_rel {α β : Type} {R : α → β → Prop} {xs : Array α} {ys : Array β}
    (h : ∀ i : Nat, Option.Rel R xs[i]? ys[i]?) : xs.size = ys.size := by
  have hnone : ∀ i : Nat, xs[i]? = none ↔ ys[i]? = none := by
    intro i
    have hi := h i
    generalize xs[i]? = x, ys[i]? = y at hi
    cases hi <;> simp
  simp only [Array.getElem?_eq_none_iff] at hnone
  have hle := (hnone xs.size).mp (Nat.le_refl _)
  have hge := (hnone ys.size).mpr (Nat.le_refl _)
  omega

theorem rel_push {α β : Type} {R : α → β → Prop} {xs : Array α} {ys : Array β}
    (h : ∀ i : Nat, Option.Rel R xs[i]? ys[i]?) {a : α} {b : β} (hab : R a b) (i : Nat) :
    Option.Rel R (xs.push a)[i]? (ys.push b)[i]? := by
  rw [Array.getElem?_push, Array.getElem?_push, size_eq_of_rel h]
  split
  next => exact .some hab
  next => exact h i

/-- A change that goes by what is there, to what is there. -/
theorem modify_const {α : Type} {xs : Array α} {i : Nat} {a : α} (h : xs[i]? = some a) (g : α → α) :
    xs.modify i (fun _ => g a) = xs.modify i g := by
  refine Array.ext_getElem? fun j => ?_
  rw [Array.getElem?_modify, Array.getElem?_modify]
  by_cases hij : i = j
  · subst hij
    rw [if_pos rfl, if_pos rfl, h]
    rfl
  · rw [if_neg hij, if_neg hij]

theorem rel_of_forall₂ {α β : Type} {R : α → β → Prop} {xs : List α} {ys : List β}
    (h : List.Forall₂ R xs ys) (i : Nat) : Option.Rel R xs[i]? ys[i]? := by
  induction h generalizing i with
  | nil => exact .none
  | cons hab _ ih =>
    cases i with
    | zero => exact .some hab
    | succ i => exact ih i

end Correspondence

namespace Engine

/-- Binders of two engines for operations with one canonical form, in dispatchers with one number. -/
def Matched (e f : Engine σ) (b b' : BinderRef) : Prop :=
  b'.dispatcher = b.dispatcher ∧
    ∃ op op', e.Offers b op ∧ f.Offers b' op' ∧ op'.canonical = op.canonical

/-- Two engines that are the same but for the binders, where call sites of the one have binders that
match those of the other. -/
structure Twins (T : Ty → Prop) (e f : Engine σ) : Prop where
  fresh : e.fresh = f.fresh
  host : e.host = f.host
  dispatchers : ∀ i : Nat, Option.Rel (Dispatcher.Twin T) e.dispatchers[i]? f.dispatchers[i]?
  sites : ∀ i : Nat, Option.Rel
    (fun s s' => ∃ b', s' = { s with binder := b' } ∧ Matched e f s.binder b') e.sites[i]? f.sites[i]?

variable {host host' : Host σ} {e e' f f' : Engine σ} {b b' : BinderRef}

theorem Matched.of_lasts (h : Matched e f b b') (he : e.Lasts e') (hf : f.Lasts f') :
    Matched e' f' b b' := by
  obtain ⟨hdispatcher, op, op', ho, ho', hsame⟩ := h
  exact ⟨hdispatcher, op, op', he.offers ho, hf.offers ho', hsame⟩

namespace Twins

/-- Changes to the dispatchers of twins that last leave twins, if the dispatchers still are. -/
theorem of_lasts (h : Twins T e f) (he : e.Lasts e') (hf : f.Lasts f')
    (hfresh : e'.fresh = f'.fresh) (hhost : e'.host = f'.host)
    (hd : ∀ i : Nat, Option.Rel (Dispatcher.Twin T) e'.dispatchers[i]? f'.dispatchers[i]?)
    (hs : e'.sites = e.sites) (hs' : f'.sites = f.sites) : Twins T e' f' where
  fresh := hfresh
  host := hhost
  dispatchers := hd
  sites i := by
    rw [hs, hs']
    refine rel_imp (h.sites i) fun s s' hb => ?_
    obtain ⟨b', hsite, hmatched⟩ := hb
    exact ⟨b', hsite, hmatched.of_lasts he hf⟩

/-- The same change to a dispatcher of both. -/
theorem modifyDispatcher (h : Twins T e f) (i : Nat) {g g' : Dispatcher → Dispatcher}
    (hg : ∀ d d', d.Twin T d' → (g d).Twin T (g' d')) (hr : ∀ d : Dispatcher, d.Retains (g d))
    (hr' : ∀ d : Dispatcher, d.Retains (g' d)) :
    Twins T { e with dispatchers := e.dispatchers.modify i g }
      { f with dispatchers := f.dispatchers.modify i g' } :=
  h.of_lasts (.of_dispatcher fun d _ => hr d) (.of_dispatcher fun d _ => hr' d) h.fresh h.host
    (rel_modify h.dispatchers hg i) rfl rfl

/-- The same change to a call site of both, whatever its binder is. -/
theorem modifySite (h : Twins T e f) (i : Nat) {g : Site → Site}
    (hg : ∀ s b, g { s with binder := b } = { g s with binder := b })
    (hb : ∀ s, (g s).binder = s.binder) :
    Twins T { e with sites := e.sites.modify i g } { f with sites := f.sites.modify i g } where
  fresh := h.fresh
  host := h.host
  dispatchers := h.dispatchers
  sites := by
    refine rel_modify h.sites (fun s s' hs => ?_) i
    obtain ⟨b', rfl, hmatched⟩ := hs
    exact ⟨b', hg s b', by rw [hb]; exact hmatched⟩

/-- A new call site of both, with binders that match. -/
theorem newSite (h : Twins T e f) {s : Site} (hb : Matched e f s.binder b') :
    Twins T { e with sites := e.sites.push s }
      { f with sites := f.sites.push { s with binder := b' } } where
  fresh := h.fresh
  host := h.host
  dispatchers := h.dispatchers
  sites := rel_push h.sites ⟨b', rfl, hb⟩

theorem next (h : Twins T e f) :
    Twins T { e with fresh := e.fresh + 1 } { f with fresh := f.fresh + 1 } :=
  ⟨congrArg (· + 1) h.fresh, h.host, h.dispatchers, h.sites⟩

end Twins

/-- Binders that match answer the same to requests to bind, with pure resolvers. -/
theorem bind_twins (h : Twins T e f) (hb : Matched e f b b')
    (hresolver : host'.resolver b.dispatcher = host.resolver b.dispatcher)
    (hpure : (host.resolver b.dispatcher).Pure) (operands : List Operand)
    (fallback : Option Rule) :
    ∃ answer t u, (bind host b operands fallback).exec e = (answer, t) ∧
      (bind host' b' operands fallback).exec f = (answer, u) ∧ Twins T t u := by
  obtain ⟨_, n⟩ := b
  obtain ⟨i, n'⟩ := b'
  obtain ⟨rfl, op, op', ⟨d, direct, hd, tally, hn⟩, ⟨d', direct', hd', tally', hn'⟩, hsame⟩ := hb
  dsimp only at hd hd' hn hn' hresolver hpure
  obtain ⟨_, hsome, htwin⟩ := some_of_rel (h.dispatchers i) hd
  cases hd'.symm.trans hsome
  obtain ⟨hkind, hcount, hjudge⟩ := Operation.alike_of_canonical (σ := Engine σ) hsame
  -- whatever is counted in which tally, the dispatchers are twins as before
  have hcounted : ∀ k k' g g', Twins T
      { e with dispatchers := e.dispatchers.modify i (·.modifyTally k g) }
      { f with dispatchers := f.dispatchers.modify i (·.modifyTally k' g') } := fun k k' g g' =>
    h.modifyDispatcher i (fun _ _ ht => ht.modifyTally k k' g g') (fun d => .modifyTally d k g)
      fun d => .modifyTally d k' g'
  by_cases hlength : operands.length = op.operandCount
  · by_cases hp : Operand.pending operands = []
    · have hknown := Operand.pending_eq_nil_iff.mp hp
      obtain ⟨target, rest, rfl⟩ := List.exists_cons_of_length_pos (hlength ▸ op.operandCount_pos)
      obtain ⟨verdict, hverdict, -⟩ := Operation.judge_of_pure
        (s := ⟨host.resolver i, d.types, d.emptyResult⟩) e hpure hlength
      have hverdict' : op'.judge ⟨host'.resolver i, d'.types, d'.emptyResult⟩ (target :: rest) =
          pure verdict := by
        rw [hjudge, hresolver, htwin.types, htwin.emptyResult, hverdict]
      refine ⟨.ok (.bound (verdict.rule fallback)), _, _, ?_, ?_,
        hcounted (Binder.creditee n ⟨op, direct, tally⟩ (target :: rest))
          (Binder.creditee n' ⟨op', direct', tally'⟩ (target :: rest))
          (·.countRule (verdict.rule fallback)) (·.countRule (verdict.rule fallback))⟩
      · rw [exec_bind_of_known hd hn hlength hknown, hverdict]
        rfl
      · rw [exec_bind_of_known hd' hn' (hlength.trans hcount.symm) hknown, hverdict']
        rfl
    · exact ⟨_, _, _, exec_bind_of_pending hd hn hlength hp,
        exec_bind_of_pending hd' hn' (hlength.trans hcount.symm) hp, hcounted _ _ _ _⟩
  · refine ⟨_, e, f, exec_bind_of_length_ne hd hn hlength, ?_, h⟩
    rw [exec_bind_of_length_ne hd' hn' fun heq => hlength (heq.trans hcount), hkind]

/-- Call sites with binders that match are made in the same place. -/
theorem newSite_twins (h : Twins T e f) (hb : Matched e f b b') (maxRules : Nat)
    (fallback : Option Rule) :
    ((newSite b maxRules fallback).exec e).1 = ((newSite b' maxRules fallback).exec f).1 ∧
      Twins T ((newSite b maxRules fallback).exec e).2
        ((newSite b' maxRules fallback).exec f).2 := by
  obtain ⟨-, op, op', ⟨d, direct, hd, tally, hn⟩, ⟨d', direct', hd', tally', hn'⟩, hsame⟩ := id hb
  obtain ⟨hkind, -, -⟩ := Operation.alike_of_canonical (σ := Engine σ) hsame
  rw [exec_newSite hd hn, exec_newSite hd' hn']
  dsimp only
  rw [size_eq_of_rel h.sites, hkind]
  exact ⟨rfl, h.newSite hb⟩

/-- Hosts with the same pure resolvers, and with routines that do the same to twins and let things
last. Of one host it says that its routines do not look at binders. -/
structure Indifferent (T : Ty → Prop) (host host' : Host σ) : Prop where
  resolver : ∀ i, host'.resolver i = host.resolver i
  pure : ∀ i, (host.resolver i).Pure
  routine : ∀ i args, Run.Agree (Twins T) (host.routine i args) (host'.routine i args)
  lasts : ∀ i args, Run.Within Lasts (host.routine i args)
  lasts' : ∀ i args, Run.Within Lasts (host'.routine i args)

theorem Indifferent.left (hh : Indifferent T host host') : host.Within Lasts where
  resolver i := (hh.pure i).within Lasts.refl Lasts.trans
  routine := hh.lasts

theorem Indifferent.right (hh : Indifferent T host host') : host'.Within Lasts where
  resolver i := by
    rw [hh.resolver]
    exact (hh.pure i).within Lasts.refl Lasts.trans
  routine := hh.lasts'

/-- Routines that see and change nothing but what the host keeps for itself. -/
def Secluded (host : Host σ) : Prop :=
  ∀ i args, ∃ f : σ → Except Panic (Outcome Value) × σ, ∀ e : Engine σ,
    (host.routine i args).exec e = ((f e.host).1, { e with host := (f e.host).2 })

/-- Secluded routines do not look at binders. -/
theorem Secluded.indifferent (h : Secluded host) (hpure : ∀ i, (host.resolver i).Pure) :
    Indifferent T host host := by
  have hlasts : ∀ i args, Run.Within Lasts (host.routine i args) := by
    intro i args e
    obtain ⟨f, hf⟩ := h i args
    rw [hf]
    exact .of_eq rfl rfl
  refine ⟨fun _ => rfl, hpure, fun i args e f ht => ?_, hlasts, hlasts⟩
  obtain ⟨g, hg⟩ := h i args
  show ((host.routine i args).exec e).1 = ((host.routine i args).exec f).1 ∧
    Twins T ((host.routine i args).exec e).2 ((host.routine i args).exec f).2
  rw [hg, hg, ht.host]
  exact ⟨rfl, ht.fresh, rfl, ht.dispatchers, ht.sites⟩

section Agreement

variable (hh : Indifferent T host host')
include hh

/-- Twins find the same rules, and bind the same ones. -/
theorem ruleFor_twins (i : Nat) (operands : List Value) :
    Act.Agree (Twins T) (ruleFor host i operands) (ruleFor host' i operands) := by
  intro e f h
  cases hs : e.sites[i]? with
  | none =>
    rw [exec_ruleFor_of_none hs, exec_ruleFor_of_none (none_of_rel (h.sites i) hs)]
    exact ⟨rfl, h⟩
  | some s =>
    obtain ⟨_, hs', b', rfl, hb⟩ := some_of_rel (h.sites i) hs
    cases hfound : s.cache.find? operands with
    | some r =>
      rw [exec_ruleFor_of_found hs hfound, exec_ruleFor_of_found hs' hfound,
        modify_const hs fun s => { s with hits := s.hits + 1 },
        modify_const hs' fun s => { s with hits := s.hits + 1 }]
      exact ⟨rfl, h.modifySite i (fun _ _ => rfl) fun _ => rfl⟩
    | none =>
      rw [exec_ruleFor_of_not_found hs hfound, exec_ruleFor_of_not_found hs' hfound,
        modify_const hs fun s => { s with misses := s.misses + 1 },
        modify_const hs' fun s => { s with misses := s.misses + 1 }]
      have hmissed : Twins T
          { e with sites := e.sites.modify i fun s => { s with misses := s.misses + 1 } }
          { f with sites := f.sites.modify i fun s => { s with misses := s.misses + 1 } } :=
        h.modifySite i (fun _ _ => rfl) fun _ => rfl
      obtain ⟨answer, t, u, hbind, hbind', hbound⟩ := bind_twins hmissed hb
        (hh.resolver s.binder.dispatcher) (hh.pure s.binder.dispatcher) (operands.map .known)
        s.fallback
      dsimp only
      rw [hbind, hbind']
      match answer with
      | .error p => exact ⟨rfl, hbound⟩
      | .ok (.deferred pending) => exact ⟨rfl, hbound⟩
      | .ok (.bound r) =>
        refine ⟨rfl, hbound.modifySite i (fun s b => ?_) fun s => ?_⟩
        · unfold Site.keep
          split <;> rfl
        · unfold Site.keep
          split <;> rfl

/-- Executions at twins come to the same. -/
theorem execute_twins (i : Nat) (operands : List Value) :
    Run.Agree (Twins T) (execute host i operands) (execute host' i operands) :=
  Run.agree_bind (Run.agree_lift (ruleFor_twins hh i operands)) fun r =>
    Fragment.evaluate_agree
      (call_agree hh.routine fun _ _ h => ⟨h.fresh, h.next⟩) operands r.fragment

end Agreement

end Engine

end Dispatch
