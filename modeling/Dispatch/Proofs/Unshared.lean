import Dispatch.Proofs.Twins

/-!
# Sharing is not seen

Binders are shared to keep one tally for each key, and to save the making of binders. Nobody can
tell from what a program comes to: a session in which each request is met with a binder of its own,
and in which clears do nothing, answers to all moves as the session with shared binders does, and its
call sites look the same all the time (`sharing_unseen`).

The two sessions are compared move by move. They are `Paired`: their engines are twins, and the
binders that they got match, one by one. Each move comes to the same in paired sessions
(`make_paired`) and leaves paired sessions (`step_paired`), because what was got before lasts.

In the runtime: `DispatchCache.get_or_create` and `clear`, seen through `CallSite`.
-/

namespace Dispatch

variable {σ : Type} {T : Ty → Prop}

namespace Session

open Engine (Twins Matched Indifferent Lasts)

variable {host host' : Host σ} {s s' : Session σ} {e f t u : Engine σ}

/-- Two sessions so far that have got binders which match, one by one, in engines that are twins. -/
structure Paired (T : Ty → Prop) (s s' : Session σ) : Prop where
  engine : Twins T s.engine s'.engine
  handles : List.Forall₂ (Matched s.engine s'.engine) s.handles s'.handles

/-- Two answers that look the same, where binders that were got match. -/
def SameAnswer (t u : Engine σ) (answer answer' : Except Panic Reply) : Prop :=
  answer.map Reply.seen = answer'.map Reply.seen ∧
    List.Forall₂ (Matched t u) (got answer) (got answer')

/-- An answer that has no binder in it. -/
theorem sameAnswer_of_plain {answer : Except Panic Reply} (h : got answer = []) :
    SameAnswer t u answer answer := by
  refine ⟨rfl, ?_⟩
  rw [h]
  exact .nil

/-- What a move comes to in paired sessions: the same answer, in engines that are twins. -/
def PairedBy (T : Ty → Prop) (x y : Act (Engine σ) Reply) (e f : Engine σ) : Prop :=
  Twins T (x.exec e).2 (y.exec f).2 ∧
    SameAnswer (x.exec e).2 (y.exec f).2 (x.exec e).1 (y.exec f).1

theorem pairedBy_throw (h : Twins T e f) (p : Panic) : PairedBy T (throw p) (throw p) e f :=
  ⟨h, sameAnswer_of_plain rfl⟩

/-- Actions that agree, with the same conclusion, which is not that a binder was got. -/
theorem pairedBy_conclude {α : Type} {x y : Act (Engine σ) α} {reply : α → Reply}
    (h : (x.exec e).1 = (y.exec f).1 ∧ Twins T (x.exec e).2 (y.exec f).2)
    (hplain : ∀ a, got (.ok (reply a)) = []) :
    PairedBy T (x >>= fun a => pure (reply a)) (y >>= fun a => pure (reply a)) e f := by
  unfold PairedBy
  rw [Act.exec_bind_pure, Act.exec_bind_pure, h.1]
  refine ⟨h.2, sameAnswer_of_plain ?_⟩
  cases (y.exec f).1 with
  | error p => rfl
  | ok a => exact hplain a

/-- Requests for one operation are met with binders that match, however binders are supplied. -/
theorem pairedBy_request (hT : ∀ {s t}, T s → T t → s.id = t.id → s = t) (h : Twins T e f) (i : Nat)
    {op : Operation} (hop : op.Over T) (supply supply' : Supply) :
    PairedBy T (do return Reply.binder ⟨i, ← Engine.onDispatcher i (supply.get · op)⟩)
      (do return Reply.binder ⟨i, ← Engine.onDispatcher i (supply'.get · op)⟩) e f := by
  unfold PairedBy
  rw [Act.exec_bind_pure, Act.exec_bind_pure]
  cases hd : e.dispatchers[i]? with
  | none =>
    rw [Engine.exec_onDispatcher_of_none hd,
      Engine.exec_onDispatcher_of_none (none_of_rel (h.dispatchers i) hd)]
    exact ⟨h, sameAnswer_of_plain rfl⟩
  | some d =>
    obtain ⟨d', hd', htwin⟩ := some_of_rel (h.dispatchers i) hd
    rw [Engine.exec_onDispatcher hd, Engine.exec_onDispatcher hd',
      modify_const hd fun d => (supply.get d op).2,
      modify_const hd' fun d => (supply'.get d op).2]
    obtain ⟨op₁, direct, hs, hsame⟩ := htwin.left.serves_get hT hop supply
    obtain ⟨op₁', direct', hs', hsame'⟩ := htwin.right.serves_get hT hop supply'
    refine ⟨h.modifyDispatcher i (fun _ _ ht => ht.get hop supply supply')
      (fun d => supply.retains_get d op) fun d => supply'.retains_get d op, rfl, ?_⟩
    refine .cons ⟨rfl, op₁, op₁', ⟨_, direct, ?_, hs⟩, ⟨_, direct', ?_, hs'⟩, hsame'.trans hsame.symm⟩
      .nil
    · rw [Array.getElem?_modify, if_pos rfl, hd]
      rfl
    · rw [Array.getElem?_modify, if_pos rfl, hd']
      rfl

section Moves

variable (hT : ∀ {s t}, T s → T t → s.id = t.id → s = t) (hh : Indifferent T host host')
  (supply supply' : Supply)
include hT hh

/-- A move comes to the same in paired sessions, however binders are supplied in each. -/
theorem make_paired (h : Paired T s s') (move : Move)
    (hmove : ∀ i op, move = .request i op → op.Over T) :
    PairedBy T (move.make host supply s.handles) (move.make host' supply' s'.handles) s.engine
      s'.engine := by
  cases move with
  | request i op => exact pairedBy_request hT h.engine i (hmove i op rfl) supply supply'
  | site handle maxRules fallback =>
    simp only [Move.make]
    cases hb : s.handles[handle]? with
    | none =>
      rw [none_of_rel (rel_of_forall₂ h.handles handle) hb]
      exact pairedBy_throw h.engine _
    | some b =>
      obtain ⟨b', hb', hmatched⟩ := some_of_rel (rel_of_forall₂ h.handles handle) hb
      rw [hb']
      exact pairedBy_conclude (Engine.newSite_twins h.engine hmatched maxRules fallback)
        fun _ => rfl
  | bind handle operands fallback =>
    simp only [Move.make]
    cases hb : s.handles[handle]? with
    | none =>
      rw [none_of_rel (rel_of_forall₂ h.handles handle) hb]
      exact pairedBy_throw h.engine _
    | some b =>
      obtain ⟨b', hb', hmatched⟩ := some_of_rel (rel_of_forall₂ h.handles handle) hb
      rw [hb']
      obtain ⟨answer, t, u, hbind, hbind', htwins⟩ := Engine.bind_twins h.engine hmatched
        (hh.resolver _) (hh.pure _) operands fallback
      refine pairedBy_conclude ?_ fun _ => rfl
      rw [hbind, hbind']
      exact ⟨rfl, htwins⟩
  | execute i operands =>
    exact pairedBy_conclude (Engine.execute_twins hh i operands s.engine s'.engine h.engine)
      fun _ => rfl
  | reset i =>
    exact ⟨h.engine.modifySite i (fun _ _ => rfl) fun _ => rfl, sameAnswer_of_plain rfl⟩
  | clear i =>
    exact ⟨h.engine.modifyDispatcher i (fun _ _ ht => ht.drop supply supply') supply.retains_drop
      supply'.retains_drop, sameAnswer_of_plain rfl⟩

/-- Sessions stay paired move by move: what they got before still matches. -/
theorem step_paired (h : Paired T s s') (move : Move)
    (hmove : ∀ i op, move = .request i op → op.Over T) :
    Paired T (s.step host supply move) (s'.step host' supply' move) := by
  obtain ⟨hengine, -, hgot⟩ := make_paired hT hh supply supply' h move hmove
  have hlasts : s.engine.Lasts (s.step host supply move).engine :=
    within_step (Engine.admits_lasts host) hh.left supply s move
  have hlasts' : s'.engine.Lasts (s'.step host' supply' move).engine :=
    within_step (Engine.admits_lasts host') hh.right supply' s' move
  refine ⟨hengine, List.rel_append (h.handles.imp fun b b' hb => ?_) hgot⟩
  exact hb.of_lasts hlasts hlasts'

/-- Paired sessions look the same ever after. -/
theorem seen_paired (h : Paired T s s') {moves : List Move}
    (hmoves : ∀ i op, .request i op ∈ moves → op.Over T) :
    s.seen host supply moves = s'.seen host' supply' moves := by
  induction moves generalizing s s' with
  | nil => rfl
  | cons move moves ih =>
    have hmove : ∀ i op, move = .request i op → op.Over T := fun i op hop =>
      hmoves i op (hop ▸ List.mem_cons_self)
    obtain ⟨-, hanswer, -⟩ := make_paired hT hh supply supply' h move hmove
    have hnext := step_paired hT hh supply supply' h move hmove
    have hlooks : (s.step host supply move).engine.sites.map Site.look =
        (s'.step host' supply' move).engine.sites.map Site.look := by
      refine Array.ext_getElem? fun i => ?_
      have hsite := hnext.engine.sites i
      rw [Array.getElem?_map, Array.getElem?_map]
      generalize (s.step host supply move).engine.sites[i]? = x,
        (s'.step host' supply' move).engine.sites[i]? = y at hsite
      cases hsite with
      | none => rfl
      | some hs =>
        obtain ⟨b', rfl, -⟩ := hs
        rfl
    rw [seen, seen, hanswer, hlooks,
      ih hnext fun i op hop => hmoves i op (List.mem_cons_of_mem _ hop)]

end Moves

/-- Nothing was handed out yet: no binder is shared, and there are no call sites. -/
structure Blank (s : Session σ) : Prop where
  handles : s.handles = []
  sites : s.engine.sites = #[]
  shared : ∀ d ∈ s.engine.dispatchers, d.shared = []

theorem Blank.paired (h : s.Blank) : Paired T s s where
  engine.fresh := rfl
  engine.host := rfl
  engine.dispatchers i := by
    cases hd : s.engine.dispatchers[i]? with
    | none => exact .none
    | some d =>
      have hshared := h.shared d (Array.mem_of_getElem? hd)
      have htidy : d.Tidy T := by
        refine ⟨⟨fun op n hmem => ?_, fun m call n hmem => ?_⟩, fun op n hmem => ?_⟩
        all_goals
          rw [hshared] at hmem
          cases hmem
      exact .some ⟨rfl, rfl, rfl, htidy, htidy⟩
  engine.sites i := by
    rw [h.sites]
    exact .none
  handles := by
    rw [h.handles]
    exact .nil

/-- Sharing binders is not seen. Where one number stands for one type, resolvers are pure and
routines do not look at binders, a session comes to the same answers however requests for binders
are met: with the shared binders that clears drop, or each with a new one, made for the key or for
the operation as it was asked for. And all call sites look the same after each move. -/
theorem sharing_unseen (hT : ∀ {s t}, T s → T t → s.id = t.id → s = t)
    (hh : Indifferent T host host') (hs : s.Blank) {moves : List Move}
    (hmoves : ∀ i op, .request i op ∈ moves → op.Over T) (supply : Supply) :
    s.seen host .shared moves = s.seen host' supply moves :=
  seen_paired hT hh .shared supply hs.paired hmoves

end Session

/-- A host whose routines number their calls. -/
def tickingHost : Host Nat where
  resolver _ := smallResolver
  routine _ _ := ExceptT.lift (modifyGet fun e =>
    (.integer (Int64.ofNat e.host), { e with host := e.host + 1 }))

theorem tickingHost_secluded : Engine.Secluded tickingHost :=
  fun _ _ => ⟨fun n => (.ok (.ok (.integer (Int64.ofNat n))), n + 1), fun _ => rfl⟩

/-- A program that has not done anything yet. -/
def tickingSession : Session Nat where
  engine := { dispatchers := #[.new {} .initial ⟨0⟩], fresh := 1, host := 0 }

/-- A function is called as a member, and then as a value, at two call sites that share a binder for
values; and a division is asked for in two forms, with a clear in between. -/
def tickingMoves : List Move :=
  [.request 0 (.invokeMember ⟨"run", false⟩ (.positional 1)), .request 0 (.invoke (.positional 1)),
    .request 0 (.invoke (.positional 1)), .site 0 2 none, .site 2 2 none,
    .execute 0 [.callable full, .integer 7], .execute 1 [.callable full, .integer 7],
    .request 0 (.binary ⟨.integerDivide, false⟩), .clear 0, .request 0 (.convert .integer),
    .bind 3 [.known (.integer 7), .known (.integer 2)] none, .execute 0 [.callable full, .integer 7]]

/-- However binders are supplied, the third call counts as the third. -/
theorem sharing_unseen_ticking :
    (∀ supply, tickingSession.seen tickingHost .shared tickingMoves =
      tickingSession.seen tickingHost supply tickingMoves) ∧
    (tickingSession.run tickingHost .shared tickingMoves).handles ≠
      (tickingSession.run tickingHost .keyed tickingMoves).handles ∧
    (tickingSession.seen tickingHost .asked tickingMoves).getLast?.map (·.2.toList) =
      some [⟨.monomorphic, 1, 1, 1⟩, ⟨.monomorphic, 1, 0, 1⟩] := by
  refine ⟨fun supply => ?_, ?_, ?_⟩
  · refine Session.sharing_unseen (T := (· = .integer)) (fun hs ht _ => hs.trans ht.symm)
      (tickingHost_secluded.indifferent fun _ => smallResolver_pure) ⟨rfl, rfl, by decide⟩ ?_ supply
    intro i op hmem t ht
    subst ht
    have hconvert : i = 0 ∧ t = .integer := by simpa [tickingMoves] using hmem
    exact hconvert.2
  · decide +kernel
  · decide +kernel

end Dispatch
