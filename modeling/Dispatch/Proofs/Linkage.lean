import Dispatch.Engine.Lemmas
import Dispatch.Proofs.Sharing

/-!
# Calls of members and calls of values

A function that is called as a member is called itself, whatever the member, and the call is counted
where calls of values are counted. So a binder that calls members hands over to one that calls
values, and all members that are called with one shape have to hand over to the same one, which is
also the one that is handed out for the calls of values themselves. Otherwise the count of one shape
would be split over several binders, and nobody would see it.

The link is made when the binder for the member is made, out of whatever is shared for the call at
that time, which may have been there before. The invariant is `Dispatcher.Wired`: what is shared is
for the operation under which it is shared, and the link of a member leads to the shared binder of
the call. Binders never change but for their tallies (`Dispatcher.Retains`), so what was said of a
binder when it was made is true of it ever after.

Neither do the settings ever change, so what is meant by the name of a member is the same all along
(`answer_member_eq_iff`).

In the runtime: `DispatchCache.invoke_member` and `InvokeMemberBinder.fallback_invoke`.

Main statement: `members_share_call`, about all histories of a new dispatcher.
-/

namespace Dispatch.Dispatcher

open Operation (Key)

/-- Binder `n` is for the operation `op`, and hands calls of functions over to `direct`. -/
def Serves (d : Dispatcher) (n : Nat) (op : Operation) (direct : Option Nat) : Prop :=
  ∃ tally, d.binders[n]? = some ⟨op, direct, tally⟩

/-- The later state `d'` of a dispatcher still has what `d` had: the settings, the empty result list,
and all binders with what they are for. -/
structure Retains (d d' : Dispatcher) : Prop where
  settings : d'.settings = d.settings
  emptyResult : d'.emptyResult = d.emptyResult
  binders : ∀ n op direct, d.Serves n op direct → d'.Serves n op direct

variable {d d' d'' : Dispatcher} {op : Operation} {n k : Nat} {direct : Option Nat}

namespace Retains

theorem refl (d : Dispatcher) : d.Retains d :=
  ⟨rfl, rfl, fun _ _ _ h => h⟩

theorem trans (h : d.Retains d') (h' : d'.Retains d'') : d.Retains d'' where
  settings := h'.settings.trans h.settings
  emptyResult := h'.emptyResult.trans h.emptyResult
  binders n op direct hs := h'.binders n op direct (h.binders n op direct hs)

/-- What was counted before makes no difference. -/
theorem of_counted {hits misses : UInt64} (h : Retains { d with hits, misses } d') : d.Retains d' :=
  ⟨h.settings, h.emptyResult, h.binders⟩

theorem counted (d : Dispatcher) (hits misses : UInt64) : d.Retains { d with hits, misses } :=
  of_counted (refl { d with hits, misses })

/-- New binders come behind those that are there. -/
theorem make (d : Dispatcher) (op : Operation) (direct : Option Nat) :
    d.Retains (d.make op direct).2 where
  settings := rfl
  emptyResult := rfl
  binders n op' direct' hs := by
    obtain ⟨tally, hb⟩ := hs
    obtain ⟨hn, -⟩ := Array.getElem?_eq_some_iff.mp hb
    refine ⟨tally, ?_⟩
    show (d.binders.push _)[n]? = _
    rw [Array.getElem?_push, if_neg (by omega)]
    exact hb

theorem add (d : Dispatcher) (op : Operation) (direct : Option Nat) :
    d.Retains (d.add op direct).2 :=
  ⟨rfl, rfl, (make d op direct).binders⟩

theorem modifyTally (d : Dispatcher) (k : Nat) (f : Tally → Tally) :
    d.Retains (d.modifyTally k f) where
  settings := rfl
  emptyResult := rfl
  binders n op direct hs := by
    obtain ⟨tally, hb⟩ := hs
    unfold Serves Dispatcher.modifyTally
    rw [Array.getElem?_modify, hb]
    split
    next => exact ⟨f tally, rfl⟩
    next => exact ⟨tally, rfl⟩

theorem requestAlone (d : Dispatcher) (op : Operation) : d.Retains (d.requestAlone op).2 := by
  unfold Dispatcher.requestAlone
  split
  next => exact counted d (d.hits + 1) d.misses
  next => exact of_counted (add { d with misses := d.misses + 1 } op none)

theorem request (d : Dispatcher) (op : Operation) : d.Retains (d.request op).2 := by
  unfold Dispatcher.request
  split
  next member call =>
    split
    next => exact counted d (d.hits + 1) d.misses
    next =>
      -- the binder that calls values is there before the one that calls members is made
      exact of_counted (trans (requestAlone { d with misses := d.misses + 1 } (.invoke call))
        (add _ (.invokeMember member call) _))
  next => exact requestAlone d op

theorem clear (d : Dispatcher) : d.Retains d.clear :=
  ⟨rfl, rfl, fun _ _ _ h => h⟩

theorem serve (d : Dispatcher) (demand : Demand) : d.Retains (d.serve demand) := by
  cases demand with
  | request op => exact request d op.canonical
  | clear => exact clear d

theorem after (d : Dispatcher) (history : List Demand) : d.Retains (d.after history) := by
  induction history generalizing d with
  | nil => exact refl d
  | cons demand rest ih => exact (serve d demand).trans (ih (d.serve demand))

end Retains

/-- What a program means by the name of a member does not depend on what it asked for before. -/
theorem member_after (d : Dispatcher) (history : List Demand) (name : String)
    (ignoreCase : Option Bool) :
    (d.after history).member name ignoreCase = d.member name ignoreCase := by
  rw [member, (Retains.after d history).settings, member]

/-- Two requests that name members are answered with one binder just if the names are the same, case
counts in both or in neither, whether a request says so or leaves it to the settings, and nothing
was dropped between them. -/
theorem answer_member_eq_iff (h : d.Orderly) {operation : MemberName → Operation}
    (hkey : ∀ {m m'}, (operation m).key = (operation m').key → m = m') (name name' : String)
    (ignoreCase ignoreCase' : Option Bool) (between : List Demand) :
    let asked := operation (d.member name ignoreCase)
    let d' := d.after (.request asked :: between)
    d.answer asked = d'.answer (operation (d'.member name' ignoreCase')) ↔
      (name = name' ∧
        ignoreCase.getD d.settings.ignoreCase = ignoreCase'.getD d.settings.ignoreCase) ∧
      .clear ∉ between := by
  intro asked d'
  have hmember : d'.member name' ignoreCase' = d.member name' ignoreCase' := d.member_after _ _ _
  have hkeys : asked.key = (operation (d.member name' ignoreCase')).key ↔
      d.member name ignoreCase = d.member name' ignoreCase' :=
    ⟨hkey, congrArg fun m => (operation m).key⟩
  rw [hmember, answer_eq_iff h, hkeys, member, member, MemberName.mk.injEq]

/-- A binder is for one operation. -/
theorem Serves.operation_eq {op' : Operation} {direct' : Option Nat} (h : d.Serves n op direct)
    (h' : d.Serves n op' direct') : op = op' := by
  obtain ⟨tally, hb⟩ := h
  obtain ⟨tally', hb'⟩ := h'
  cases hb.symm.trans hb'
  rfl

theorem serves_make (d : Dispatcher) (op : Operation) (direct : Option Nat) :
    (d.make op direct).2.Serves (d.make op direct).1 op direct := by
  refine ⟨{}, ?_⟩
  show (d.binders.push _)[d.binders.size]? = _
  rw [Array.getElem?_push, if_pos rfl]

/-- What is looked up is shared, under an operation that is interchangeable with the one looked
up. -/
theorem mem_shared_of_lookup (h : d.lookup op = some n) :
    ∃ op', (op', n) ∈ d.shared ∧ (op == op') = true := by
  unfold lookup at h
  generalize d.shared = shared at h ⊢
  induction shared with
  | nil => cases h
  | cons entry rest ih =>
    obtain ⟨op', n'⟩ := entry
    rw [List.lookup_cons] at h
    split at h
    next hsame =>
      cases h
      exact ⟨op', List.mem_cons_self, hsame⟩
    next =>
      obtain ⟨found, hmem, hsame⟩ := ih h
      exact ⟨found, List.mem_cons_of_mem _ hmem, hsame⟩

/-- Calls of one shape are interchangeable with nothing else. -/
theorem mem_shared_of_lookup_invoke {call : CallShape} (h : d.lookup (.invoke call) = some n) :
    (.invoke call, n) ∈ d.shared := by
  obtain ⟨op', hmem, hsame⟩ := mem_shared_of_lookup h
  rcases Operation.beq_iff.mp hsame with rfl | ⟨s, t, hs, -, -⟩
  · exact hmem
  · cases hs

/-- The binders that are shared are for the operations under which they are shared, and those that
call members hand over to the shared ones that call values. -/
structure Wired (d : Dispatcher) : Prop where
  made : ∀ op n, (op, n) ∈ d.shared → ∃ direct, d.Serves n op direct
  linked : ∀ m call n, (.invokeMember m call, n) ∈ d.shared →
    ∃ k, d.Serves n (.invokeMember m call) (some k) ∧ (.invoke call, k) ∈ d.shared

namespace Wired

theorem new (settings : Settings) (types : Registry) (storage : Identity) :
    (Dispatcher.new settings types storage).Wired :=
  ⟨nofun, nofun⟩

/-- As long as the same is shared, nothing that keeps the binders breaks a link. -/
theorem of_retains (h : d.Wired) (hr : d.Retains d') (hshared : d'.shared = d.shared) :
    d'.Wired where
  made op n hmem := by
    rw [hshared] at hmem
    obtain ⟨direct, hs⟩ := h.made op n hmem
    exact ⟨direct, hr.binders n op direct hs⟩
  linked m call n hmem := by
    rw [hshared] at hmem ⊢
    obtain ⟨k, hs, hcall⟩ := h.linked m call n hmem
    exact ⟨k, hr.binders n _ _ hs, hcall⟩

/-- One more binder is shared; if it calls members it is linked. -/
theorem add (h : d.Wired) (hlink : ∀ m call, op = .invokeMember m call →
    ∃ k, direct = some k ∧ (.invoke call, k) ∈ d.shared) : (d.add op direct).2.Wired where
  made op' n hmem := by
    rcases List.mem_append.mp hmem with hold | hnew
    · obtain ⟨direct', hs⟩ := h.made op' n hold
      exact ⟨direct', (Retains.add d op direct).binders n op' direct' hs⟩
    · cases List.mem_singleton.mp hnew
      exact ⟨direct, serves_make d op direct⟩
  linked m call n hmem := by
    rcases List.mem_append.mp hmem with hold | hnew
    · obtain ⟨k, hs, hcall⟩ := h.linked m call n hold
      exact ⟨k, (Retains.add d op direct).binders n _ _ hs, List.mem_append_left _ hcall⟩
    · cases List.mem_singleton.mp hnew
      obtain ⟨k, rfl, hcall⟩ := hlink m call rfl
      exact ⟨k, serves_make d _ _, List.mem_append_left _ hcall⟩

theorem requestAlone (h : d.Wired) (op : Operation) (hkind : op.kind ≠ .invokeMember) :
    (d.requestAlone op).2.Wired := by
  unfold Dispatcher.requestAlone
  split
  next => exact h.of_retains (.counted d (d.hits + 1) d.misses) rfl
  next =>
    have hcounted : ({ d with misses := d.misses + 1 } : Dispatcher).Wired :=
      h.of_retains (.counted d d.hits (d.misses + 1)) rfl
    apply hcounted.add
    intro m call hop
    exact absurd (by rw [hop]; rfl) hkind

/-- A request makes the link before it shares the binder that calls members. -/
theorem request (h : d.Wired) (op : Operation) : (d.request op).2.Wired := by
  cases op with
  | invokeMember m call =>
    simp only [Dispatcher.request]
    split
    next => exact h.of_retains (.counted d (d.hits + 1) d.misses) rfl
    next =>
      have hcounted : ({ d with misses := d.misses + 1 } : Dispatcher).Wired :=
        h.of_retains (.counted d d.hits (d.misses + 1)) rfl
      have hfirst := hcounted.requestAlone (.invoke call) (by simp [Operation.kind])
      apply hfirst.add
      intro m' call' hop
      cases hop
      exact ⟨_, rfl, mem_shared_of_lookup_invoke (lookup_requestAlone _ (.invoke call))⟩
  | _ => exact h.requestAlone _ (by simp [Operation.kind])

theorem clear (d : Dispatcher) : d.clear.Wired :=
  ⟨nofun, nofun⟩

theorem serve (h : d.Wired) (demand : Demand) : (d.serve demand).Wired := by
  cases demand with
  | request op => exact h.request op.canonical
  | clear => exact clear d

theorem after (h : d.Wired) (history : List Demand) : (d.after history).Wired := by
  induction history generalizing d with
  | nil => exact h
  | cons demand rest ih => exact ih (h.serve demand)

end Wired

/-- An operation that is told by its key is shared itself if its key is. -/
theorem mem_shared_of_mem_table (op : Operation) (hkey : ∀ op', op'.key = op.key → op' = op)
    (h : (op.key, n) ∈ d.table) : (op, n) ∈ d.shared := by
  obtain ⟨⟨op', n'⟩, hmem, heq⟩ := List.mem_map.mp h
  obtain ⟨hsame, rfl⟩ := Prod.mk.inj heq
  rw [← hkey op' hsame]
  exact hmem

theorem mem_shared_invoke {call : CallShape} (h : (.invoke call, n) ∈ d.table) :
    (.invoke call, n) ∈ d.shared := by
  apply mem_shared_of_mem_table (.invoke call) _ h
  intro op' hkey
  cases op' <;> cases hkey
  rfl

theorem mem_shared_invokeMember {m : MemberName} {call : CallShape}
    (h : (.invokeMember m call, n) ∈ d.table) : (.invokeMember m call, n) ∈ d.shared := by
  apply mem_shared_of_mem_table (.invokeMember m call) _ h
  intro op' hkey
  cases op' <;> cases hkey
  rfl

/-- After a clear no request is answered with a binder that was shared before. -/
theorem lt_answer_of_clear (h : d.Orderly) {entry : Key × Nat} (hentry : entry ∈ d.table)
    (before rest : List Demand) (op : Operation) :
    entry.2 < (d.after (before ++ .clear :: rest)).answer op := by
  let cleared := (d.after before).clear
  have hcleared : cleared.Orderly := orderly_clear (orderly_after h before)
  have hlt : entry.2 < cleared.binders.size :=
    (h.made entry hentry).trans_le (size_le_after h before)
  have hle : cleared.binders.size ≤ (cleared.after rest).answer op := by
    have hnew := le_of_mem_table_after hcleared (Nat.le_refl _) nofun (rest ++ [.request op])
    rw [after_append] at hnew
    exact hnew _ (answer_mem_serve (orderly_after hcleared rest) op)
  rw [after_append]
  exact hlt.trans_le hle

/-- Requests for what is shared are answered with it until something is dropped, and no longer. -/
theorem answer_eq_iff_of_mem (h : d.Orderly) (op : Operation) (hn : (op.key, n) ∈ d.table)
    (later : List Demand) : (d.after later).answer op = n ↔ .clear ∉ later := by
  constructor
  · intro heq hclear
    obtain ⟨before, rest, rfl⟩ := List.append_of_mem hclear
    have hlt := lt_answer_of_clear h hn before rest op
    omega
  · intro hclear
    have hafter := orderly_after h later
    have hmem : (op.key, n) ∈ ((d.after later).after [.request op]).table :=
      mem_table_after hafter (by simp) (mem_table_after h hclear hn)
    have horderly := orderly_serve hafter (.request op)
    exact congrArg Prod.snd
      (List.inj_on_of_nodup_map horderly.nodup_keys (answer_mem_serve hafter op) hmem rfl)

/-- What is shared for calls of members with one shape hands over to what is shared for the calls of
values. -/
theorem Wired.of_call (h : d.Wired) (ho : d.Orderly) {call : CallShape}
    (hk : (.invoke call, k) ∈ d.table) {m : MemberName} (hn : (.invokeMember m call, n) ∈ d.table) :
    d.Serves n (.invokeMember m call) (some k) := by
  obtain ⟨k', hs, hcall⟩ := h.linked m call n (mem_shared_invokeMember hn)
  -- there is but one binder that is shared for the call
  have hk' : (Key.invoke call, k') ∈ d.table := List.mem_map_of_mem hcall
  obtain ⟨-, rfl⟩ := Prod.mk.inj (List.inj_on_of_nodup_map ho.nodup_keys hk hk' rfl)
  exact hs

/-- Binder `n` counts in the tally of `k` what it makes of functions that are called. -/
def Credits (d : Dispatcher) (n k : Nat) : Prop :=
  ∃ binder, d.binders[n]? = some binder ∧
    ∀ target rest, target.callable?.isSome = true → binder.creditee n (target :: rest) = k

theorem Serves.credits_invoke {call : CallShape} (h : d.Serves k (.invoke call) direct) :
    d.Credits k k := by
  obtain ⟨tally, hb⟩ := h
  exact ⟨_, hb, fun _ _ _ => rfl⟩

theorem Serves.credits_invokeMember {m : MemberName} {call : CallShape}
    (h : d.Serves n (.invokeMember m call) (some k)) : d.Credits n k := by
  obtain ⟨tally, hb⟩ := h
  exact ⟨_, hb, fun target rest hc => if_pos hc⟩

/-- A rule that a binder makes of a function is counted in the tally that is credited. -/
theorem Credits.exec_bind {σ : Type} {host : Host σ} {e : Engine σ} {i : Nat} (h : d.Credits n k)
    (hd : e.dispatchers[i]? = some d) {op : Operation} (hs : d.Serves n op direct)
    {target : Operand} {rest : List Operand} (hc : target.callable?.isSome = true)
    (hn : (target :: rest).length = op.operandCount)
    (hknown : ∀ o ∈ target :: rest, o.isKnown = true) (fallback : Option Rule) :
    (Engine.bind host ⟨i, n⟩ (target :: rest) fallback).exec e =
      match (op.judge ⟨host.resolver i, d.types, d.emptyResult⟩ (target :: rest)).exec e with
      | (.ok verdict, t) =>
        (.ok (.bound (verdict.rule fallback)),
          { t with
            dispatchers := t.dispatchers.modify i fun d =>
              d.modifyTally k (·.countRule (verdict.rule fallback)) })
      | (.error p, t) => (.error p, t) := by
  obtain ⟨binder, hb, hcredit⟩ := h
  obtain ⟨tally, hb'⟩ := hs
  cases hb.symm.trans hb'
  have hbind : (Engine.bind host ⟨i, n⟩ (target :: rest) fallback).exec e = _ :=
    Engine.exec_bind_of_known hd hb hn hknown
  rw [hcredit target rest hc] at hbind
  exact hbind

/-- Whatever a new dispatcher was asked for and told to drop: where a binder is shared for calls of
a member, one is shared for calls of values with the same shape, and the first hands over to it. As
long as nothing is dropped, and no longer, all requests for these calls of values are answered with
that one; all binders that are shared for calls of members with that shape, of whatever name, hand
over to it; and all of them count in its tally what they make of functions. -/
theorem members_share_call (settings : Settings) (types : Registry) (storage : Identity)
    (history : List Demand) {m : MemberName} {call : CallShape}
    (hn : (.invokeMember m call, n) ∈ ((new settings types storage).after history).table) :
    ∃ k, (Key.invoke call, k) ∈ ((new settings types storage).after history).table ∧
      ((new settings types storage).after history).Serves n (.invokeMember m call) (some k) ∧
      (∀ later, ((new settings types storage).after (history ++ later)).answer (.invoke call) = k ↔
        .clear ∉ later) ∧
      ∀ later, .clear ∉ later →
        (∃ direct, ((new settings types storage).after (history ++ later)).Serves k (.invoke call)
          direct) ∧
        ((new settings types storage).after (history ++ later)).Credits k k ∧
        ∀ m' n', (.invokeMember m' call, n') ∈
            ((new settings types storage).after (history ++ later)).table →
          ((new settings types storage).after (history ++ later)).Serves n' (.invokeMember m' call)
            (some k) ∧
          ((new settings types storage).after (history ++ later)).Credits n' k := by
  have horderly := orderly_after (orderly_new settings types storage) history
  have hwired := (Wired.new settings types storage).after history
  simp only [after_append]
  generalize (new settings types storage).after history = d at hn horderly hwired ⊢
  obtain ⟨k, hs, hcall⟩ := hwired.linked m call n (mem_shared_invokeMember hn)
  have hk : (Key.invoke call, k) ∈ d.table := List.mem_map_of_mem hcall
  refine ⟨k, hk, hs, answer_eq_iff_of_mem horderly (.invoke call) hk, ?_⟩
  intro later hclear
  have hk' := mem_table_after horderly hclear hk
  obtain ⟨direct, hkept⟩ := (hwired.after later).made _ k (mem_shared_invoke hk')
  refine ⟨⟨direct, hkept⟩, hkept.credits_invoke, ?_⟩
  intro m' n' hn'
  have hs' := (hwired.after later).of_call (orderly_after horderly later) hk' hn'
  exact ⟨hs', hs'.credits_invokeMember⟩

/-- A member is called with one argument, then a value, and then the member whatever the case of its
name. All three come down to the one binder that was made for the first call. -/
theorem members_share_call_run :
    (∀ later, ((new {} .initial ⟨0⟩).after
        ([.request (.getMember ⟨"run", false⟩), .clear,
          .request (.invokeMember ⟨"run", false⟩ (.positional 1))] ++ later)).answer
        (.invoke (.positional 1)) = 1 ↔ .clear ∉ later) ∧
      ((new {} .initial ⟨0⟩).after
        ([.request (.getMember ⟨"run", false⟩), .clear,
            .request (.invokeMember ⟨"run", false⟩ (.positional 1))] ++
          [.request (.invoke (.positional 1)),
            .request (.invokeMember ⟨"run", true⟩ (.positional 1))])).Credits 3 1 := by
  have hmember : (Key.invokeMember ⟨"run", false⟩ (.positional 1), 2) ∈
      ((new {} .initial ⟨0⟩).after
        [.request (.getMember ⟨"run", false⟩), .clear,
          .request (.invokeMember ⟨"run", false⟩ (.positional 1))]).table := by decide
  obtain ⟨k, hcall, -, hanswer, hshared⟩ := members_share_call {} .initial ⟨0⟩ _ hmember
  obtain rfl : k = 1 := by
    have hone := (hanswer []).mpr (by simp)
    exact hone.symm
  refine ⟨hanswer, ?_⟩
  have hnone : (.clear : Demand) ∉ [.request (.invoke (.positional 1)),
      .request (.invokeMember ⟨"run", true⟩ (.positional 1))] := by simp
  exact ((hshared _ hnone).2.2 ⟨"run", true⟩ 3 (by decide)).2

end Dispatch.Dispatcher
