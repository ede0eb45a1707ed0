import Mathlib.Algebra.BigOperators.Group.Finset.Basic
import Dispatch.Proofs.Session
import Dispatch.Proofs.Variants

/-!
# Accounts of a dispatcher

Every answer to a request to bind is counted in the tally of one binder, and tallies count nothing
else. So the tallies of a dispatcher are an account of all that its binders were asked: there is a
posting for each answer, with the binder that is credited. That is the one that was asked, but for
rules for functions that are called as members (`Dispatcher.Due`).

`Dispatcher.Posted` says how a later state of a dispatcher accounts for postings. It does so for
none when binders are made, shared or dropped (`Posted.get`), and for one when an answer is counted
(`Posted.count`). From a new dispatcher on the accounts are complete: all tallies together have
counted as much as there are postings (`Posted.sum_tallies`).

In the runtime: `BinderStats`, and whose statistics `InvokeMemberBinder.bind` counts in.
-/

namespace Dispatch

/-- An answer to a request to bind. -/
structure Answer where
  binder : Nat
  operands : List Operand
  binding : Binding

/-- Whether the answer is a rule for a function that is called as a member. -/
def Answer.handsOver (a : Answer) (op : Operation) : Bool :=
  op.kind = .invokeMember && !a.binding.isDeferred && a.operands.head?.any (·.callable?.isSome)

/-- An answer with the binder whose tally counts it. -/
structure Posting where
  answer : Answer
  credited : Nat

namespace Posting

/-- What the tally of a binder counts, in order. -/
def creditedTo (log : List Posting) (n : Nat) : List Binding :=
  (log.filter fun p => p.credited = n).map fun p => p.answer.binding

theorem creditedTo_append (log more : List Posting) (n : Nat) :
    creditedTo (log ++ more) n = creditedTo log n ++ creditedTo more n := by
  rw [creditedTo, List.filter_append, List.map_append]
  rfl

theorem creditedTo_cons (p : Posting) (log : List Posting) (n : Nat) :
    creditedTo (p :: log) n =
      if p.credited = n then p.answer.binding :: creditedTo log n else creditedTo log n := by
  rw [creditedTo, List.filter_cons]
  split <;> simp_all [creditedTo]

/-- If all postings are credited to one of so many binders, each is counted once. -/
theorem sum_length_creditedTo {size : Nat} {log : List Posting}
    (h : ∀ p ∈ log, p.credited < size) :
    ∑ n ∈ Finset.range size, (creditedTo log n).length = log.length := by
  induction log with
  | nil => simp [creditedTo]
  | cons p log ih =>
    have hp : p.credited ∈ Finset.range size := Finset.mem_range.mpr (h p List.mem_cons_self)
    have hfirst : ∀ n, (creditedTo (p :: log) n).length =
        (if p.credited = n then 1 else 0) + (creditedTo log n).length := by
      intro n
      rw [creditedTo_cons]
      split <;> simp [Nat.add_comm]
    simp only [hfirst, Finset.sum_add_distrib, Finset.sum_ite_eq, hp, if_true,
      ih fun q hq => h q (List.mem_cons_of_mem _ hq), List.length_cons, Nat.add_comm]

end Posting

namespace Dispatcher

variable {d d' d'' : Dispatcher} {op : Operation} {n : Nat} {direct : Option Nat} {p : Posting}
  {log more : List Posting}

/-- Binders that call members hand over to binders that call values with the same shape. -/
structure Furnished (d : Dispatcher) : Prop where
  wired : d.Wired
  direct : ∀ n m call direct, d.Serves n (.invokeMember m call) direct →
    ∃ k direct', direct = some k ∧ d.Serves k (.invoke call) direct'

/-- The posting is credited to the binder that was asked, but one of a rule for a function that is
called as a member to the binder for the call alone. -/
def Due (d : Dispatcher) (p : Posting) : Prop :=
  ∃ op direct, d.Serves p.answer.binder op direct ∧
    if p.answer.handsOver op then
      ∃ m call direct', op = .invokeMember m call ∧ direct = some p.credited ∧
        d.Serves p.credited (.invoke call) direct'
    else p.credited = p.answer.binder

theorem Due.of_retains (h : d.Due p) (hr : d.Retains d') : d'.Due p := by
  obtain ⟨op, direct, hs, hdue⟩ := h
  refine ⟨op, direct, hr.binders _ _ _ hs, ?_⟩
  split at hdue
  next hover =>
    obtain ⟨m, call, direct', hop, hdirect, hcall⟩ := hdue
    rw [if_pos hover]
    exact ⟨m, call, direct', hop, hdirect, hr.binders _ _ _ hcall⟩
  next hover =>
    rw [if_neg hover]
    exact hdue

theorem Serves.lt_size (h : d.Serves n op direct) : n < d.binders.size := by
  obtain ⟨tally, hb⟩ := h
  exact (Array.getElem?_eq_some_iff.mp hb).1

/-- Whoever is credited is there. -/
theorem Due.credited_lt (h : d.Due p) : p.credited < d.binders.size := by
  obtain ⟨op, direct, hs, hdue⟩ := h
  split at hdue
  next =>
    obtain ⟨m, call, direct', -, -, hcall⟩ := hdue
    exact hcall.lt_size
  next => exact hdue ▸ hs.lt_size

/-- A deferral is due to the binder that was asked. -/
theorem due_deferred {binder : Binder} (hb : d.binders[n]? = some binder) (operands : List Operand)
    (pending : List Nat) : d.Due ⟨⟨n, operands, .deferred pending⟩, n⟩ := by
  refine ⟨binder.operation, binder.direct, ⟨binder.tally, hb⟩, ?_⟩
  simp [Answer.handsOver, Binding.isDeferred]

/-- A rule is due to the binder that is credited with it. -/
theorem due_creditee {binder : Binder} (h : d.Furnished) (hb : d.binders[n]? = some binder)
    (operands : List Operand) (rule : Rule) :
    d.Due ⟨⟨n, operands, .bound rule⟩, binder.creditee n operands⟩ := by
  obtain ⟨op, direct, tally⟩ := binder
  refine ⟨op, direct, ⟨tally, hb⟩, ?_⟩
  cases op with
  | invokeMember m call =>
    obtain ⟨k, direct', rfl, hcall⟩ := h.direct n m call direct ⟨tally, hb⟩
    cases operands with
    | nil => rfl
    | cons target rest =>
      by_cases hc : target.callable?.isSome = true
      · have hover : Answer.handsOver ⟨n, target :: rest, .bound rule⟩ (.invokeMember m call) :=
          hc
        have hcredited : Binder.creditee n ⟨.invokeMember m call, some k, tally⟩
            (target :: rest) = k := if_pos hc
        rw [hcredited, if_pos hover]
        exact ⟨m, call, direct', rfl, rfl, hcall⟩
      · have hover : ¬ Answer.handsOver ⟨n, target :: rest, .bound rule⟩ (.invokeMember m call) :=
          hc
        rw [if_neg hover]
        exact if_neg hc
  | _ => rfl

/-- The later state `d'` of a dispatcher accounts for the postings of a log: each tally counts what
is credited to it. -/
structure Posted (log : List Posting) (d d' : Dispatcher) : Prop where
  retains : d.Retains d'
  furnished : d'.Furnished
  tally : ∀ n, d'.tally n = (d.tally n).post (Posting.creditedTo log n)
  due : ∀ p ∈ log, d'.Due p

theorem furnished_new (settings : Settings) (types : Registry) (storage : Identity) :
    (new settings types storage).Furnished where
  wired := .new settings types storage
  direct _ _ _ _ := by
    rintro ⟨tally, hb⟩
    exact absurd hb (by simp [new])

/-- Counting changes that tally only. -/
theorem tally_modifyTally {k : Nat} (hk : k < d.binders.size) (f : Tally → Tally) (n : Nat) :
    (d.modifyTally k f).tally n = if k = n then f (d.tally n) else d.tally n := by
  simp only [tally, modifyTally, Array.getElem?_modify]
  split
  next h =>
    subst h
    rw [Array.getElem?_eq_getElem hk]
    rfl
  next => rfl

theorem serves_of_modifyTally {k : Nat} {f : Tally → Tally}
    (h : (d.modifyTally k f).Serves n op direct) : d.Serves n op direct := by
  obtain ⟨tally, hb⟩ := h
  have hmodify : (d.binders.modify k fun b => { b with tally := f b.tally })[n]? =
      some ⟨op, direct, tally⟩ := hb
  rw [Array.getElem?_modify] at hmodify
  split at hmodify
  next =>
    obtain ⟨⟨op', direct', tally'⟩, hold, hsame⟩ := Option.map_eq_some_iff.mp hmodify
    cases hsame
    exact ⟨tally', hold⟩
  next => exact ⟨tally, hmodify⟩

theorem tally_make (d : Dispatcher) (op : Operation) (direct : Option Nat) (n : Nat) :
    (d.make op direct).2.tally n = d.tally n := by
  simp only [tally, make, Array.getElem?_push]
  split
  next h =>
    rw [h, Array.getElem?_eq_none (Nat.le_refl _)]
    rfl
  next => rfl

theorem serves_of_make {op' : Operation} {direct' : Option Nat}
    (h : (d.make op direct).2.Serves n op' direct') :
    d.Serves n op' direct' ∨ op' = op ∧ direct' = direct := by
  obtain ⟨tally, hb⟩ := h
  have hpush : (d.binders.push { operation := op, direct })[n]? = some ⟨op', direct', tally⟩ := hb
  rw [Array.getElem?_push] at hpush
  split at hpush
  next =>
    cases hpush
    exact .inr ⟨rfl, rfl⟩
  next => exact .inl ⟨tally, hpush⟩

namespace Posted

theorem trans (h : Posted log d d') (k : Posted more d' d'') : Posted (log ++ more) d d'' where
  retains := h.retains.trans k.retains
  furnished := k.furnished
  tally n := by rw [k.tally, h.tally, Posting.creditedTo_append, Tally.post_append]
  due p hp := by
    rcases List.mem_append.mp hp with hp | hp
    · exact (h.due p hp).of_retains k.retains
    · exact k.due p hp

/-- A change that leaves the binders alone, and what is shared. -/
theorem of_same (h : d.Furnished) (hr : d.Retains d') (hshared : d'.shared = d.shared)
    (hbinders : d'.binders = d.binders) : Posted [] d d' where
  retains := hr
  furnished :=
    { wired := h.wired.of_retains hr hshared
      direct := by
        unfold Serves at *
        rw [hbinders]
        exact h.direct }
  tally n := by
    rw [Dispatcher.tally, Dispatcher.tally, hbinders]
    rfl
  due := nofun

theorem refl (h : d.Furnished) : Posted [] d d :=
  .of_same h (.refl d) rfl rfl

/-- A binder is made. -/
theorem make (h : d.Furnished) (hlink : ∀ m call, op = .invokeMember m call →
    ∃ k direct', direct = some k ∧ d.Serves k (.invoke call) direct') :
    Posted [] d (d.make op direct).2 where
  retains := .make d op direct
  furnished :=
    { wired := h.wired.of_retains (.make d op direct) rfl
      direct := by
        intro n m call direct' hs
        have hlinked : ∃ k direct'', direct' = some k ∧ d.Serves k (.invoke call) direct'' := by
          rcases serves_of_make hs with hold | ⟨hop, hdirect⟩
          · exact h.direct n m call direct' hold
          · rw [hdirect]
            exact hlink m call hop.symm
        obtain ⟨k, direct'', hk, hcall⟩ := hlinked
        exact ⟨k, direct'', hk, (Retains.make d op direct).binders _ _ _ hcall⟩ }
  tally := tally_make d op direct
  due := nofun

/-- A binder is made and shared. -/
theorem add (h : d.Furnished) (hlink : ∀ m call, op = .invokeMember m call →
    ∃ k, direct = some k ∧ (.invoke call, k) ∈ d.shared) :
    Posted [] d (d.add op direct).2 := by
  have hmade : Posted [] d (d.make op direct).2 := by
    refine .make h fun m call hop => ?_
    obtain ⟨k, hdirect, hshared⟩ := hlink m call hop
    obtain ⟨direct', hs⟩ := h.wired.made _ k hshared
    exact ⟨k, direct', hdirect, hs⟩
  exact ⟨.add d op direct, ⟨h.wired.add hlink, hmade.furnished.direct⟩, hmade.tally, nofun⟩

theorem requestAlone (h : d.Furnished) (hkind : op.kind ≠ .invokeMember) :
    Posted [] d (d.requestAlone op).2 := by
  unfold Dispatcher.requestAlone
  split
  next => exact .of_same h (.counted d (d.hits + 1) d.misses) rfl rfl
  next =>
    have hcounted : Posted [] d { d with misses := d.misses + 1 } :=
      .of_same h (.counted d d.hits (d.misses + 1)) rfl rfl
    exact hcounted.trans (.add hcounted.furnished fun m call hop =>
      absurd (by rw [hop]; rfl) hkind)

theorem request (h : d.Furnished) (op : Operation) : Posted [] d (d.request op).2 := by
  cases op with
  | invokeMember m call =>
    simp only [Dispatcher.request]
    split
    next => exact .of_same h (.counted d (d.hits + 1) d.misses) rfl rfl
    next =>
      have hcounted : Posted [] d { d with misses := d.misses + 1 } :=
        .of_same h (.counted d d.hits (d.misses + 1)) rfl rfl
      have hcall : (Operation.invoke call).kind ≠ .invokeMember := by simp [Operation.kind]
      have hfirst := hcounted.trans (.requestAlone hcounted.furnished hcall)
      refine hfirst.trans (.add hfirst.furnished ?_)
      rintro m' call' ⟨⟩
      exact ⟨_, rfl, mem_shared_of_lookup_invoke (lookup_requestAlone _ (.invoke call))⟩
  | _ => exact .requestAlone h (by simp [Operation.kind])

theorem brandNew (h : d.Furnished) (op : Operation) : Posted [] d (d.brandNew op).2 := by
  cases op with
  | invokeMember m call =>
    have hfirst : Posted [] d (d.make (.invoke call) none).2 := .make h nofun
    refine hfirst.trans (.make hfirst.furnished ?_)
    rintro m' call' ⟨⟩
    exact ⟨_, none, rfl, serves_make d (.invoke call) none⟩
  | _ => exact .make h nofun

/-- However a request for a binder is met, nothing is counted. -/
theorem get (h : d.Furnished) (supply : Supply) (op : Operation) :
    Posted [] d (supply.get d op).2 := by
  cases supply with
  | shared => exact .request h op.canonical
  | keyed => exact .brandNew h op.canonical
  | asked => exact .brandNew h op

theorem clear (h : d.Furnished) : Posted [] d d.clear where
  retains := .clear d
  furnished := ⟨.clear d, h.direct⟩
  tally _ := rfl
  due := nofun

/-- An answer is counted where it is due. -/
theorem count (h : d.Furnished) (hp : d.Due p) :
    Posted [p] d (d.modifyTally p.credited (·.countBinding p.answer.binding)) where
  retains := .modifyTally d _ _
  furnished :=
    { wired := h.wired.of_retains (.modifyTally d _ _) rfl
      direct := by
        intro n m call direct hs
        obtain ⟨k, direct', hk, hcall⟩ := h.direct n m call direct (serves_of_modifyTally hs)
        exact ⟨k, direct', hk, (Retains.modifyTally d _ _).binders _ _ _ hcall⟩ }
  tally n := by
    rw [tally_modifyTally hp.credited_lt, Posting.creditedTo_cons]
    split <;> rfl
  due q hq := by
    rw [List.mem_singleton.mp hq]
    exact hp.of_retains (.modifyTally d _ _)

section New

variable {settings : Settings} {types : Registry} {storage : Identity}

/-- Each tally of a dispatcher that was new has counted what is credited to it. -/
theorem tally_eq_post (h : Posted log (new settings types storage) d) {binder : Binder}
    (hb : d.binders[n]? = some binder) :
    binder.tally = ({} : Tally).post (Posting.creditedTo log n) := by
  have hn := h.tally n
  rw [Dispatcher.tally, hb] at hn
  exact hn

/-- All tallies of a dispatcher that was new together have counted as much as there are postings. -/
theorem sum_tallies (h : Posted log (new settings types storage) d) :
    (d.binders.toList.map fun b => b.tally.rules + b.tally.deferrals).sum = log.length := by
  have hcounted : (d.binders.toList.map fun b => b.tally.rules + b.tally.deferrals) =
      (List.range d.binders.size).map fun n => (Posting.creditedTo log n).length := by
    refine List.ext_getElem (by simp) fun n hn _ => ?_
    rw [List.length_map, Array.length_toList] at hn
    rw [List.getElem_map, List.getElem_map, List.getElem_range, Array.getElem_toList,
      h.tally_eq_post (Array.getElem?_eq_getElem hn), Tally.sum_post]
    exact Nat.zero_add _
  rw [hcounted, ← Posting.sum_length_creditedTo fun p hp => (h.due p hp).credited_lt]
  rfl

end New

end Posted

end Dispatcher

end Dispatch
