import Mathlib.Data.Set.Card
import Dispatch.Dispatcher.Basic

/-!
# One binder for each key

Which operations share a binder is decided by their keys (`Operation.key`): names with the remark
about case, shapes of calls, operators in their canonical form, and the numbers of types. A
dispatcher that is asked for binders and told to drop them, in whatever order, shares one binder for
each key that was requested since it last dropped them. So two requests are answered with one binder
just if their keys are equal and nothing was dropped between them (`answer_eq_iff`), and which keys
have a binder is which were requested (`mem_keys_after`). `shared_by_key` says so of all histories
of a new dispatcher.

The invariant is `Dispatcher.Orderly`. What one request does to the shared binders is said once, in
`Dispatcher.Extends`, and everything about histories of demands follows from that by induction.

In the runtime: `BinderMap` (`get_or_create`, `clear`) and the nine maps of `DispatchCache`.
-/

namespace Dispatch

/-- What says whether two operations share a binder. -/
inductive Operation.Key where
  | getMember (member : MemberName)
  | setMember (member : MemberName)
  | getIndex (call : CallShape)
  | setIndex (call : CallShape)
  | invoke (call : CallShape)
  | invokeMember (member : MemberName) (call : CallShape)
  | binary (request : BinaryRequest)
  | unary (operator : UnaryOperator)
  | convert (destination : UInt32)
deriving DecidableEq

namespace Operation

def Key.kind : Key → Operation.Kind
  | getMember _ => .getMember
  | setMember _ => .setMember
  | getIndex _ => .getIndex
  | setIndex _ => .setIndex
  | invoke _ => .invoke
  | invokeMember _ _ => .invokeMember
  | binary _ => .binary
  | unary _ => .unary
  | convert _ => .convert

/-- The key of an operation. Of an operator it is the canonical form that counts, and of a
destination the number. -/
def key : Operation → Key
  | getMember m => .getMember m
  | setMember m => .setMember m
  | getIndex call => .getIndex call
  | setIndex call => .setIndex call
  | invoke call => .invoke call
  | invokeMember m call => .invokeMember m call
  | binary request => .binary request.canonical
  | unary operator => .unary operator
  | convert t => .convert t.id

/-- The form in which an operation is requested, with its operator in the canonical form. -/
def canonical : Operation → Operation
  | binary request => ofOperator request.operator request.integerDivision
  | op => op

/-- The keys that a request for an operation is a request for: its own, and for a call of a member
that of the call as well. -/
def requestedKeys : Operation → List Key
  | invokeMember m call => [.invoke call, .invokeMember m call]
  | op => [op.key]

@[simp] theorem canonical_canonical (op : Operation) : op.canonical.canonical = op.canonical := by
  cases op with
  | binary request => exact congrArg binary request.canonical_canonical
  | _ => rfl

@[simp] theorem key_canonical (op : Operation) : op.canonical.key = op.key := by
  cases op with
  | binary request => exact congrArg Key.binary request.canonical_canonical
  | _ => rfl

@[simp] theorem requestedKeys_canonical (op : Operation) :
    op.canonical.requestedKeys = op.requestedKeys := by
  cases op with
  | binary request => exact congrArg (fun key => [key]) (key_canonical (binary request))
  | _ => rfl

theorem kind_key (op : Operation) : op.key.kind = op.kind := by
  cases op <;> rfl

/-- In their canonical forms operations are interchangeable just if their keys are equal. -/
theorem beq_eq_key {a b : Operation} (ha : a.canonical = a) (hb : b.canonical = b) :
    (a == b) = (a.key == b.key) := by
  rw [Bool.eq_iff_iff, beq_iff, beq_iff_eq]
  cases a <;> cases b <;>
    simp_all [canonical, ofOperator, key]

end Operation

open Operation (Key)

namespace Dispatcher

/-- The keys of the shared binders, with the numbers of the binders. -/
def table (d : Dispatcher) : List (Key × Nat) :=
  d.shared.map fun entry => (entry.1.key, entry.2)

def keys (d : Dispatcher) : List Key :=
  d.table.map Prod.fst

/-- The state that a dispatcher is always in: keys and binders that are shared correspond one to
one, the binders are there, and so is what calls of members need. -/
structure Orderly (d : Dispatcher) : Prop where
  canonical : ∀ entry ∈ d.shared, entry.1.canonical = entry.1
  nodup_keys : d.keys.Nodup
  nodup_numbers : (d.table.map Prod.snd).Nodup
  made : ∀ entry ∈ d.table, entry.2 < d.binders.size
  called : ∀ m call, .invokeMember m call ∈ d.keys → .invoke call ∈ d.keys
  linked : ∀ (i : Nat) (binder : Binder), d.binders[i]? = some binder →
    ∀ k, binder.direct = some k → k < d.binders.size

theorem orderly_new (settings : Settings) (types : Registry) (storage : Identity) :
    (new settings types storage).Orderly where
  canonical := nofun
  nodup_keys := .nil
  nodup_numbers := .nil
  made := nofun
  called := nofun
  linked _ _ h := nomatch h

variable {d d' d'' : Dispatcher} {op : Operation} {requested : List Key}

namespace Orderly

/-- A binder is looked up by key. -/
theorem lookup_eq (h : d.Orderly) (hop : op.canonical = op) :
    d.lookup op = d.table.lookup op.key := by
  have hcanonical := h.canonical
  rw [lookup, table]
  generalize d.shared = shared at hcanonical ⊢
  induction shared with
  | nil => rfl
  | cons entry rest ih =>
    rw [List.map_cons, List.lookup_cons, List.lookup_cons,
      Operation.beq_eq_key hop (hcanonical entry List.mem_cons_self),
      ih fun e he => hcanonical e (List.mem_cons_of_mem _ he)]

theorem mem_of_lookup (h : d.Orderly) (hop : op.canonical = op) {number : Nat}
    (hlookup : d.lookup op = some number) : (op.key, number) ∈ d.table := by
  rw [h.lookup_eq hop] at hlookup
  obtain ⟨before, after, hsplit, -⟩ := List.lookup_eq_some_iff.mp hlookup
  rw [hsplit]
  exact List.mem_append_right _ List.mem_cons_self

theorem lookup_eq_none_iff (h : d.Orderly) (hop : op.canonical = op) :
    d.lookup op = none ↔ op.key ∉ d.keys := by
  rw [h.lookup_eq hop, List.lookup_eq_none_iff, keys, List.mem_map]
  simp only [bne_iff_ne, ne_eq, not_exists, not_and]
  exact forall₂_congr fun entry _ => not_congr eq_comm

end Orderly

/-- What requests do to a dispatcher: they share binders that they make, under the keys that are
requested unless there are binders for these. -/
structure Extends (d d' : Dispatcher) (requested : List Key) : Prop where
  orderly : d'.Orderly
  table : ∃ added, d'.table = d.table ++ added ∧ ∀ entry ∈ added, d.binders.size ≤ entry.2
  size : d.binders.size ≤ d'.binders.size
  mem_keys : ∀ key, key ∈ d'.keys ↔ key ∈ d.keys ∨ key ∈ requested

namespace Extends

theorem refl (h : d.Orderly) (hkeys : ∀ key ∈ requested, key ∈ d.keys) : Extends d d requested where
  orderly := h
  table := ⟨[], (List.append_nil _).symm, nofun⟩
  size := Nat.le_refl _
  mem_keys key := ⟨.inl, fun hkey => hkey.elim id (hkeys key)⟩

theorem trans {more : List Key} (h : Extends d d' requested) (k : Extends d' d'' more) :
    Extends d d'' (requested ++ more) where
  orderly := k.orderly
  table := by
    obtain ⟨first, hfirst, hmade⟩ := h.table
    obtain ⟨second, hsecond, hmade'⟩ := k.table
    refine ⟨first ++ second, by rw [hsecond, hfirst, List.append_assoc], fun entry hentry => ?_⟩
    rcases List.mem_append.mp hentry with he | he
    · exact hmade entry he
    · exact h.size.trans (hmade' entry he)
  size := h.size.trans k.size
  mem_keys key := by rw [k.mem_keys, h.mem_keys, List.mem_append, or_assoc]

/-- What was counted before makes no difference. -/
theorem of_counted {hits misses : UInt64} (h : Extends { d with hits, misses } d' requested) :
    Extends d d' requested :=
  ⟨h.orderly, h.table, h.size, h.mem_keys⟩

end Extends

/-- Counting requests changes nothing else. -/
theorem Orderly.counted (h : d.Orderly) (hits misses : UInt64) :
    ({ d with hits, misses } : Dispatcher).Orderly :=
  ⟨h.canonical, h.nodup_keys, h.nodup_numbers, h.made, h.called, h.linked⟩

/-- A request for operations that have binders is only counted. -/
theorem extends_counted (h : d.Orderly) (hkeys : ∀ key ∈ requested, key ∈ d.keys)
    (hits misses : UInt64) : Extends d { d with hits, misses } requested :=
  .of_counted (.refl (h.counted hits misses) hkeys)

theorem table_add (d : Dispatcher) (op : Operation) (direct : Option Nat) :
    (d.add op direct).2.table = d.table ++ [(op.key, d.binders.size)] := by
  rw [table, table, add, make, List.map_append, List.map_singleton]

theorem keys_add (d : Dispatcher) (op : Operation) (direct : Option Nat) :
    (d.add op direct).2.keys = d.keys ++ [op.key] := by
  rw [keys, keys, table_add, List.map_append, List.map_singleton]

theorem size_add (d : Dispatcher) (op : Operation) (direct : Option Nat) :
    (d.add op direct).2.binders.size = d.binders.size + 1 :=
  Array.size_push ..

/-- Adding a binder for an operation that has none, with what it needs. -/
theorem orderly_add (h : d.Orderly) (hop : op.canonical = op) (hnew : d.lookup op = none)
    {direct : Option Nat} (hdirect : ∀ k, direct = some k → k < d.binders.size)
    (hcalled : ∀ m call, op = .invokeMember m call → .invoke call ∈ d.keys) :
    (d.add op direct).2.Orderly where
  canonical entry hentry := by
    rcases List.mem_append.mp hentry with he | he
    · exact h.canonical entry he
    · rw [List.mem_singleton.mp he]
      exact hop
  nodup_keys := by
    rw [keys_add]
    exact List.nodup_append'.mpr ⟨h.nodup_keys, List.nodup_singleton _,
      List.disjoint_singleton.mpr ((h.lookup_eq_none_iff hop).mp hnew)⟩
  nodup_numbers := by
    -- the number of the new binder is too great to be shared before
    rw [table_add, List.map_append, List.map_singleton]
    refine List.nodup_append'.mpr ⟨h.nodup_numbers, List.nodup_singleton _,
      List.disjoint_singleton.mpr fun hmem => ?_⟩
    obtain ⟨entry, hentry, hnumber⟩ := List.mem_map.mp hmem
    exact absurd (h.made entry hentry) (by rw [hnumber]; exact Nat.lt_irrefl _)
  made entry hentry := by
    rw [table_add] at hentry
    rw [size_add]
    rcases List.mem_append.mp hentry with he | he
    · exact Nat.lt_succ_of_lt (h.made entry he)
    · rw [List.mem_singleton.mp he]
      exact Nat.lt_succ_self _
  called m call hmem := by
    rw [keys_add, List.mem_append] at hmem ⊢
    rcases hmem with hmem | hmem
    · exact .inl (h.called m call hmem)
    · refine .inl (hcalled m call ?_)
      cases op <;> cases List.mem_singleton.mp hmem
      rfl
  linked i binder hi k hk := by
    rw [size_add]
    have hpush : (d.binders.push { operation := op, direct })[i]? = some binder := hi
    rw [Array.getElem?_push] at hpush
    split at hpush
    next =>
      cases hpush
      exact Nat.lt_succ_of_lt (hdirect k hk)
    next => exact Nat.lt_succ_of_lt (h.linked i binder hpush k hk)

theorem extends_add (h : d.Orderly) (hop : op.canonical = op) (hnew : d.lookup op = none)
    {direct : Option Nat} (hdirect : ∀ k, direct = some k → k < d.binders.size)
    (hcalled : ∀ m call, op = .invokeMember m call → .invoke call ∈ d.keys) :
    Extends d (d.add op direct).2 [op.key] where
  orderly := orderly_add h hop hnew hdirect hcalled
  table := ⟨_, table_add d op direct, fun entry hentry => by rw [List.mem_singleton.mp hentry]⟩
  size := by
    rw [size_add]
    exact Nat.le_succ _
  mem_keys key := by rw [keys_add, List.mem_append]

/-- A request for an operation that needs no other binder. -/
theorem extends_requestAlone (h : d.Orderly) (hop : op.canonical = op)
    (hkind : op.kind ≠ .invokeMember) : Extends d (d.requestAlone op).2 [op.key] := by
  unfold requestAlone
  split
  next number hlookup =>
    refine extends_counted h (fun key hkey => ?_) (d.hits + 1) d.misses
    rw [List.mem_singleton.mp hkey]
    exact List.mem_map_of_mem (h.mem_of_lookup hop hlookup)
  next hlookup =>
    exact .of_counted (extends_add (h.counted d.hits (d.misses + 1)) hop hlookup nofun
      fun m call hcall => absurd (by rw [hcall]; rfl) hkind)

/-- A request extends the dispatcher by what it is a request for. -/
theorem extends_request (h : d.Orderly) (hop : op.canonical = op) :
    Extends d (d.request op).2 op.requestedKeys := by
  cases op with
  | invokeMember m call =>
    simp only [request]
    split
    next number hlookup =>
      have hmem : .invokeMember m call ∈ d.keys := List.mem_map_of_mem (h.mem_of_lookup hop hlookup)
      refine extends_counted h (fun key hkey => ?_) (d.hits + 1) d.misses
      rcases List.mem_pair.mp hkey with rfl | rfl
      · exact h.called m call hmem
      · exact hmem
    next hlookup =>
      have hdirect := extends_requestAlone (h.counted d.hits (d.misses + 1))
        (show (Operation.invoke call).canonical = .invoke call from rfl) (by simp [Operation.kind])
      have hentry := hdirect.orderly.mem_of_lookup rfl (lookup_requestAlone _ (.invoke call))
      refine .of_counted (hdirect.trans (extends_add hdirect.orderly hop ?_ ?_ ?_))
      · rw [hdirect.orderly.lookup_eq_none_iff hop, hdirect.mem_keys, not_or]
        exact ⟨(h.lookup_eq_none_iff hop).mp hlookup, by simp [Operation.key]⟩
      · rintro k ⟨⟩
        exact hdirect.orderly.made _ hentry
      · rintro _ _ ⟨⟩
        exact List.mem_map_of_mem hentry
  | _ => exact extends_requestAlone h hop (by simp [Operation.kind])

/-- What the history of a dispatcher is made of. -/
inductive Demand where
  | request (op : Operation)
  | clear

/-- Does what is demanded. -/
def serve (d : Dispatcher) : Demand → Dispatcher
  | .request op => (d.request op.canonical).2
  | .clear => d.clear

/-- A dispatcher after demands, one after the other. -/
def after (d : Dispatcher) (history : List Demand) : Dispatcher :=
  history.foldl serve d

/-- The number of the binder that a request is answered with. -/
def answer (d : Dispatcher) (op : Operation) : Nat :=
  (d.request op.canonical).1

theorem orderly_clear (h : d.Orderly) : d.clear.Orderly where
  canonical := nofun
  nodup_keys := .nil
  nodup_numbers := .nil
  made := nofun
  called := nofun
  linked := h.linked

theorem extends_serve (h : d.Orderly) (op : Operation) :
    Extends d (d.serve (.request op)) op.requestedKeys := by
  rw [← Operation.requestedKeys_canonical]
  exact extends_request h op.canonical_canonical

theorem orderly_serve (h : d.Orderly) (demand : Demand) : (d.serve demand).Orderly := by
  cases demand with
  | request op => exact (extends_serve h op).orderly
  | clear => exact orderly_clear h

theorem size_le_serve (h : d.Orderly) (demand : Demand) :
    d.binders.size ≤ (d.serve demand).binders.size := by
  cases demand with
  | request op => exact (extends_serve h op).size
  | clear => exact Nat.le_refl _

/-- The binder that answers a request is shared under the key of the request. -/
theorem answer_mem_serve (h : d.Orderly) (op : Operation) :
    (op.key, d.answer op) ∈ (d.serve (.request op)).table := by
  have hmem := (orderly_serve h (.request op)).mem_of_lookup op.canonical_canonical
    (lookup_request d op.canonical)
  rw [Operation.key_canonical] at hmem
  exact hmem

variable {history : List Demand}

theorem orderly_after (h : d.Orderly) (history : List Demand) : (d.after history).Orderly := by
  induction history generalizing d with
  | nil => exact h
  | cons demand rest ih => exact ih (orderly_serve h demand)

theorem size_le_after (h : d.Orderly) (history : List Demand) :
    d.binders.size ≤ (d.after history).binders.size := by
  induction history generalizing d with
  | nil => exact Nat.le_refl _
  | cons demand rest ih => exact (size_le_serve h demand).trans (ih (orderly_serve h demand))

/-- What is shared stays shared until it is dropped. -/
theorem mem_table_after (h : d.Orderly) (hclear : .clear ∉ history) {entry : Key × Nat}
    (hentry : entry ∈ d.table) : entry ∈ (d.after history).table := by
  induction history generalizing d with
  | nil => exact hentry
  | cons demand rest ih =>
    refine ih (orderly_serve h demand) (fun hrest => hclear (List.mem_cons_of_mem _ hrest)) ?_
    cases demand with
    | request op =>
      obtain ⟨added, htable, -⟩ := (extends_serve h op).table
      rw [htable]
      exact List.mem_append_left _ hentry
    | clear => exact absurd List.mem_cons_self hclear

/-- If no binder that was made before is shared, none will ever be. -/
theorem le_of_mem_table_after (h : d.Orderly) {size : Nat} (hsize : size ≤ d.binders.size)
    (hnew : ∀ entry ∈ d.table, size ≤ entry.2) (history : List Demand) :
    ∀ entry ∈ (d.after history).table, size ≤ entry.2 := by
  induction history generalizing d with
  | nil => exact hnew
  | cons demand rest ih =>
    refine ih (orderly_serve h demand) (hsize.trans (size_le_serve h demand)) ?_
    cases demand with
    | request op =>
      obtain ⟨added, htable, hadded⟩ := (extends_serve h op).table
      intro entry hentry
      rw [htable] at hentry
      rcases List.mem_append.mp hentry with he | he
      · exact hnew entry he
      · exact hsize.trans (hadded entry he)
    | clear => exact nofun

theorem after_append (d : Dispatcher) (first second : List Demand) :
    d.after (first ++ second) = (d.after first).after second :=
  List.foldl_append

/-- Binders that answer requests are made before any that answers one after the next clear. -/
theorem answer_lt_of_clear (h : d.Orderly) (a : Operation) (between rest : List Demand)
    (b : Operation) :
    d.answer a < (d.after (.request a :: between ++ .clear :: rest)).answer b := by
  let cleared := (d.after (.request a :: between)).clear
  have hbetween := orderly_after h (.request a :: between)
  have hcleared : cleared.Orderly := orderly_clear hbetween
  -- the first binder is there when the others are dropped
  have hlt : d.answer a < cleared.binders.size :=
    ((orderly_serve h (.request a)).made _ (answer_mem_serve h a)).trans_le
      (size_le_after (orderly_serve h (.request a)) between)
  have hle : cleared.binders.size ≤ (cleared.after rest).answer b := by
    have hnew := le_of_mem_table_after hcleared (Nat.le_refl _) nofun (rest ++ [.request b])
    rw [after_append] at hnew
    exact hnew _ (answer_mem_serve (orderly_after hcleared rest) b)
  rw [after_append]
  exact hlt.trans_le hle

/-- Two requests, with demands between them, are answered with one binder just if their keys are
equal and the shared binders were not dropped in between. -/
theorem answer_eq_iff (h : d.Orderly) (a : Operation) (between : List Demand) (b : Operation) :
    d.answer a = (d.after (.request a :: between)).answer b ↔ a.key = b.key ∧ .clear ∉ between := by
  by_cases hclear : .clear ∈ between
  · obtain ⟨first, rest, rfl⟩ := List.append_of_mem hclear
    have hlt := answer_lt_of_clear h a first rest b
    exact ⟨fun heq => absurd heq hlt.ne, fun hkeys => absurd hclear hkeys.2⟩
  · -- in the end both binders are shared, each under its key
    have hserved := orderly_serve h (.request a)
    have hafter := orderly_after hserved between
    obtain ⟨added, htable, -⟩ := (extends_serve hafter b).table
    have hfirst : (a.key, d.answer a) ∈ (((d.serve (.request a)).after between).serve
        (.request b)).table := by
      rw [htable]
      exact List.mem_append_left _ (mem_table_after hserved hclear (answer_mem_serve h a))
    have hsecond := answer_mem_serve hafter b
    have horderly := orderly_serve hafter (.request b)
    constructor
    · intro heq
      exact ⟨congrArg Prod.fst
        (List.inj_on_of_nodup_map horderly.nodup_numbers hfirst hsecond heq), hclear⟩
    · rintro ⟨hkeys, -⟩
      exact congrArg Prod.snd
        (List.inj_on_of_nodup_map horderly.nodup_keys hfirst hsecond hkeys)

/-- Dividing in the integers is `//`, or `/` with the flag set. -/
example : (new {} .initial ⟨0⟩).answer (.binary ⟨.integerDivide, false⟩) =
    ((new {} .initial ⟨0⟩).after [.request (.binary ⟨.integerDivide, false⟩)]).answer
      (.binary ⟨.divide, true⟩) := rfl

/-- The key was requested, and nothing was dropped since. -/
def Requested (history : List Demand) (key : Key) : Prop :=
  ∃ before op rest, history = before ++ .request op :: rest ∧ .clear ∉ rest ∧
    key ∈ op.requestedKeys

theorem not_requested_nil (key : Key) : ¬ Requested [] key := by
  rintro ⟨before, op, rest, hsplit, -⟩
  exact absurd hsplit.symm (by simp)

/-- The last demand of a history is the request at which it is split, or comes behind it. -/
theorem concat_eq_split {before rest : List Demand} {demand : Demand}
    (h : history ++ [demand] = before ++ .request op :: rest) :
    (demand = .request op ∧ rest = []) ∨
      ∃ between, rest = between ++ [demand] ∧ history = before ++ .request op :: between := by
  rcases List.eq_nil_or_concat rest with rfl | ⟨between, last, rfl⟩
  · obtain ⟨-, hlast⟩ := List.append_inj' h rfl
    exact .inl ⟨(List.cons.inj hlast).1, rfl⟩
  · rw [List.concat_eq_append, ← List.cons_append, ← List.append_assoc] at h
    obtain ⟨hhistory, hlast⟩ := List.append_inj' h rfl
    exact .inr ⟨between, by rw [List.concat_eq_append, hlast], hhistory⟩

theorem requested_request {key : Key} :
    Requested (history ++ [.request op]) key ↔ Requested history key ∨ key ∈ op.requestedKeys := by
  constructor
  · rintro ⟨before, o, rest, hsplit, hclear, hkey⟩
    rcases concat_eq_split hsplit with ⟨hlast, rfl⟩ | ⟨between, rfl, rfl⟩
    · cases hlast
      exact .inr hkey
    · exact .inl ⟨before, o, between, rfl, fun h => hclear (List.mem_append_left _ h), hkey⟩
  · rintro (⟨before, o, rest, rfl, hclear, hkey⟩ | hkey)
    · refine ⟨before, o, rest ++ [.request op], by simp, ?_, hkey⟩
      simpa using hclear
    · exact ⟨history, op, [], rfl, nofun, hkey⟩

theorem not_requested_clear (key : Key) : ¬ Requested (history ++ [.clear]) key := by
  rintro ⟨before, op, rest, hsplit, hclear, -⟩
  rcases concat_eq_split hsplit with ⟨hlast, -⟩ | ⟨between, rfl, -⟩
  · cases hlast
  · exact hclear (List.mem_append_right _ List.mem_cons_self)

/-- A dispatcher that shared nothing at first shares binders for just the keys that were requested
since it last dropped them. -/
theorem mem_keys_after (h : d.Orderly) (hempty : d.shared = []) (history : List Demand)
    (key : Key) : key ∈ (d.after history).keys ↔ Requested history key := by
  induction history using List.reverseRecOn with
  | nil =>
    rw [keys, table, after, List.foldl_nil, hempty]
    exact ⟨nofun, fun hkey => absurd hkey (not_requested_nil key)⟩
  | append_singleton history demand ih =>
    rw [after_append]
    cases demand with
    | request op =>
      have hextends := extends_serve (orderly_after h history) op
      rw [requested_request, ← ih]
      exact hextends.mem_keys key
    | clear => exact ⟨nofun, fun hkey => absurd hkey (not_requested_clear key)⟩

/-- How many binders of a kind are shared is how many keys of the kind there are. -/
theorem length_sharedOf (h : d.Orderly) (kind : Operation.Kind) :
    (d.sharedOf kind).length = Set.ncard { key | key.kind = kind ∧ key ∈ d.keys } := by
  have hlength : (d.sharedOf kind).length =
      (d.keys.filter fun key => key.kind = kind).length := by
    rw [keys, table, List.map_map, List.filter_map, List.length_map, sharedOf]
    refine congrArg List.length (List.filter_congr fun entry _ => ?_)
    simp only [Function.comp_apply, Operation.kind_key]
  have hset : { key | key.kind = kind ∧ key ∈ d.keys } =
      ((d.keys.filter fun key => key.kind = kind).toFinset : Set Key) := by
    ext key
    simp [and_comm]
  rw [hset, Set.ncard_coe_finset, List.toFinset_card_of_nodup (h.nodup_keys.filter _), hlength]

/-- Binders are shared by key. In whatever order a new dispatcher is asked for binders and told to
drop them: two requests are answered with one binder just if their keys are equal and nothing was
dropped between them; a binder that answered before a clear never answers after it; and of each kind
there are as many shared binders as keys that were requested since the last clear, where a call of a
member is a request for the call as well. -/
theorem shared_by_key (settings : Settings) (types : Registry) (storage : Identity) :
    (∀ before a between b,
      ((new settings types storage).after before).answer a =
          ((new settings types storage).after (before ++ .request a :: between)).answer b ↔
        a.key = b.key ∧ .clear ∉ between) ∧
    (∀ before a between rest b,
      ((new settings types storage).after before).answer a ≠
        ((new settings types storage).after
          (before ++ .request a :: between ++ .clear :: rest)).answer b) ∧
    ∀ history kind,
      (((new settings types storage).after history).sharedOf kind).length =
        Set.ncard { key | key.kind = kind ∧ Requested history key } := by
  have hnew := orderly_new settings types storage
  refine ⟨fun before a between b => ?_, fun before a between rest b => ?_, fun history kind => ?_⟩
  · rw [after_append]
    exact answer_eq_iff (orderly_after hnew before) a between b
  · rw [List.append_assoc, after_append]
    exact (answer_lt_of_clear (orderly_after hnew before) a between rest b).ne
  · rw [length_sharedOf (orderly_after hnew history)]
    simp only [mem_keys_after hnew rfl]

end Dispatcher

end Dispatch
