import Dispatch.Proofs.Nodes

/-!
# Actions that agree

Two actions agree along a relation of states if from related states they answer alike and leave
related states. What a fragment does is decided by its tree and by what routines do, so fragments
agree as soon as routines do (`evaluate_agree`): this is the one induction over fragments that
statements about two runs on the same operands need.

A statement about one run is the case of an action that agrees with itself. `Within` says that an
action changes the state along a preorder, and a fragment stays within what routines stay within
(`evaluate_within`). `Yields` also says that the action answers, and with what. `Gives` says of an
action that some state makes it answer so; what a sequence of actions gives, its parts give
(`gives_bind`), which takes apart whatever an action may answer.

In the runtime: `Fragment.evaluate`.
-/

namespace Dispatch

variable {σ τ α β : Type}

/-- From related states two actions answer alike and leave related states. -/
def Act.Agree (R : σ → τ → Prop) (x : Act σ α) (y : Act τ α) : Prop :=
  ∀ s t, R s t → (x.exec s).1 = (y.exec t).1 ∧ R (x.exec s).2 (y.exec t).2

/-- From related states two runs end alike and leave related states. -/
def Run.Agree (R : σ → τ → Prop) (x : Run σ α) (y : Run τ α) : Prop :=
  Act.Agree R x.run y.run

/-- An action that changes the state along `R` only. -/
def Act.Within (R : σ → σ → Prop) (x : Act σ α) : Prop :=
  ∀ s, R s (x.exec s).2

/-- A run that changes the state along `R` only. -/
def Run.Within (R : σ → σ → Prop) (x : Run σ α) : Prop :=
  ∀ s, R s (x.exec s).2

/-- An action that does not panic, answers with something in `P` and changes the state along `R`
only. -/
def Act.Yields (P : α → Prop) (R : σ → σ → Prop) (x : Act σ α) : Prop :=
  ∀ s, ∃ a t, x.exec s = (.ok a, t) ∧ P a ∧ R s t

/-- From some state the action answers so. -/
def Act.Gives (x : Act σ α) (a : α) : Prop :=
  ∃ s t, x.exec s = (.ok a, t)

/-- From some state the run produces this. -/
def Run.Gives (x : Run σ α) (a : α) : Prop :=
  ∃ s t, x.exec s = (.ok (.ok a), t)

namespace Act

variable {P : α → Prop} {R : σ → σ → Prop}

theorem gives_pure {a b : α} : Gives (pure a : Act σ α) b → b = a := by
  rintro ⟨s, t, h⟩
  cases h
  rfl

theorem not_gives_throw {p : Panic} {a : α} : ¬ Gives (throw p : Act σ α) a := by
  rintro ⟨s, t, h⟩
  cases h

/-- What a sequence of actions gives comes of something that the first one gives. -/
theorem gives_bind {x : Act σ β} {f : β → Act σ α} {a : α} (h : Gives (x >>= f) a) :
    ∃ b, Gives x b ∧ Gives (f b) a := by
  obtain ⟨s, t, h⟩ := h
  rw [exec_bind] at h
  split at h
  next b u hb => exact ⟨b, ⟨s, u, hb⟩, u, t, h⟩
  next => cases h

theorem within_pure (hrefl : ∀ s, R s s) (a : α) : Within R (pure a : Act σ α) :=
  hrefl

theorem within_throw (hrefl : ∀ s, R s s) (p : Panic) : Within R (throw p : Act σ α) :=
  hrefl

/-- A sequence of actions stays within any preorder that its parts stay within. -/
theorem within_bind (htrans : ∀ {s t u}, R s t → R t u → R s u) {x : Act σ β} {f : β → Act σ α}
    (hx : Within R x) (hf : ∀ b, Within R (f b)) : Within R (x >>= f) := by
  intro s
  have hfirst := hx s
  rw [exec_bind]
  split
  next b t h =>
    rw [h] at hfirst
    exact htrans hfirst (hf b t)
  next p t h =>
    rw [h] at hfirst
    exact hfirst

theorem yields_pure {a : α} (hrefl : ∀ s, R s s) (ha : P a) : Yields P R (pure a : Act σ α) :=
  fun s => ⟨a, s, rfl, ha, hrefl s⟩

/-- An action that yields, followed by the making of something from its answer. -/
theorem yields_bind_pure {x : Act σ β} {f : β → Act σ α} (hx : Yields (fun _ => True) R x)
    (hf : ∀ b, ∃ a, f b = pure a ∧ P a) : Yields P R (x >>= f) := by
  intro s
  obtain ⟨b, t, hb, -, hst⟩ := hx s
  obtain ⟨a, ha, hPa⟩ := hf b
  refine ⟨a, t, ?_, hPa, hst⟩
  rw [exec_bind_ok hb, ha]
  rfl

section Agreement

variable {R : σ → τ → Prop}

theorem agree_pure (a : α) : Agree R (pure a) (pure a) :=
  fun _ _ h => ⟨rfl, h⟩

/-- Actions that agree, followed by actions that agree whatever the first ones answered. -/
theorem agree_bind {x : Act σ β} {y : Act τ β} {f : β → Act σ α} {g : β → Act τ α}
    (hxy : Agree R x y) (hfg : ∀ b, Agree R (f b) (g b)) : Agree R (x >>= f) (y >>= g) := by
  intro s t hst
  obtain ⟨hanswer, hleft⟩ := hxy s t hst
  rw [exec_bind, exec_bind]
  -- both first actions end in one way, and only an answer goes on
  rcases hx : exec x s with ⟨r, s'⟩
  rcases hy : exec y t with ⟨r', t'⟩
  rw [hx, hy] at hanswer hleft
  obtain rfl : r = r' := hanswer
  cases r with
  | error p => exact ⟨rfl, hleft⟩
  | ok b => exact hfg b s' t' hleft

end Agreement

end Act

namespace Run

theorem gives_pure {a b : α} : Gives (pure a : Run σ α) b → b = a := by
  rintro ⟨s, t, h⟩
  cases h
  rfl

theorem not_gives_throw {fault : Fault} {a : α} : ¬ Gives (throw fault : Run σ α) a := by
  rintro ⟨s, t, h⟩
  cases h

/-- What a sequence of runs produces comes of something that the first one produces. -/
theorem gives_bind {x : Run σ β} {f : β → Run σ α} {a : α} (h : Gives (x >>= f) a) :
    ∃ b, Gives x b ∧ Gives (f b) a := by
  obtain ⟨s, t, h⟩ := h
  rw [exec_bind] at h
  split at h
  next b u hb => exact ⟨b, ⟨s, u, hb⟩, u, t, h⟩
  next => cases h
  next => cases h

/-- What an action gives as a run, it gives. -/
theorem gives_lift {x : Act σ α} {a : α} (h : Gives (liftM x : Run σ α) a) : Act.Gives x a := by
  obtain ⟨s, t, h⟩ := h
  rw [exec_lift] at h
  cases hx : Act.exec x s with
  | mk answer u =>
    rw [hx] at h
    cases answer with
    | ok b =>
      cases h
      exact ⟨s, u, hx⟩
    | error p => cases h

variable {R : σ → τ → Prop}

theorem agree_pure (a : α) : Agree R (pure a) (pure a) :=
  fun _ _ h => ⟨rfl, h⟩

theorem agree_throw (fault : Fault) : Agree R (throw fault : Run σ α) (throw fault : Run τ α) :=
  fun _ _ h => ⟨rfl, h⟩

/-- Actions that agree do so as runs. -/
theorem agree_lift {x : Act σ α} {y : Act τ α} (h : Act.Agree R x y) :
    Agree R (liftM x : Run σ α) (liftM y : Run τ α) := by
  intro s t hst
  obtain ⟨hanswer, hleft⟩ := h s t hst
  show (exec (liftM x) s).1 = (exec (liftM y) t).1 ∧ R (exec (liftM x) s).2 (exec (liftM y) t).2
  rw [exec_lift, exec_lift, hanswer]
  exact ⟨rfl, hleft⟩

/-- Runs that agree, followed by runs that agree whatever the first ones produced. -/
theorem agree_bind {x : Run σ α} {y : Run τ α} {f : α → Run σ β} {g : α → Run τ β}
    (hxy : Agree R x y) (hfg : ∀ a, Agree R (f a) (g a)) : Agree R (x >>= f) (y >>= g) := by
  -- as actions both go on with a fault that is passed on, or with the second run
  refine Act.agree_bind (f := ExceptT.bindCont f) (g := ExceptT.bindCont g) hxy fun outcome => ?_
  cases outcome with
  | error fault => exact Act.agree_pure (Except.error fault)
  | ok a => exact hfg a

end Run

section Agreement

variable {R : σ → τ → Prop} {call : Body → List Value → Run σ Value}
  {call' : Body → List Value → Run τ Value}
  (hcall : ∀ body args, Run.Agree R (call body args) (call' body args))
include hcall

theorem Deed.run_agree (d : Deed) : Run.Agree R (d.run call) (d.run call') := by
  match d with
  | .call body args => exact hcall body args
  | .settle (.ok v) => exact Run.agree_pure v
  | .settle (.error fault) => exact Run.agree_throw fault

namespace Fragment

omit hcall in
/-- Fragments one after the other agree as soon as each of them does. -/
theorem evaluateAll_agree {operands : List Value} {fs : List Fragment}
    (h : ∀ f ∈ fs, Run.Agree R (evaluate call operands f) (evaluate call' operands f)) :
    Run.Agree R (evaluateAll call operands fs) (evaluateAll call' operands fs) := by
  induction fs with
  | nil => exact Run.agree_pure []
  | cons f fs ih =>
    simp only [evaluateAll]
    refine Run.agree_bind (h f (List.mem_cons_self ..)) fun v => ?_
    refine Run.agree_bind (ih fun g hg => h g (List.mem_cons_of_mem _ hg)) fun vs => ?_
    exact Run.agree_pure (v :: vs)

/-- Fragments agree as soon as routines do. -/
theorem evaluate_agree (operands : List Value) (f : Fragment) :
    Run.Agree R (evaluate call operands f) (evaluate call' operands f) := by
  induction f using of_parts with
  | step f ih =>
    rw [evaluate_eq, evaluate_eq]
    exact Run.agree_bind (evaluateAll_agree ih) fun vs => (f.deed operands vs).run_agree hcall

end Fragment

end Agreement

namespace Fragment

/-- A fragment stays within any preorder that routines stay within. -/
theorem evaluate_within {R : σ → σ → Prop} {call : Body → List Value → Run σ Value}
    (hrefl : ∀ s, R s s) (htrans : ∀ {s t u}, R s t → R t u → R s u)
    (hcall : ∀ body args, Run.Within R (call body args)) (operands : List Value) (f : Fragment) :
    Run.Within R (f.evaluate call operands) := by
  intro s
  -- one run beside itself, along the states that `s` leads to
  have hself : ∀ body args,
      Run.Agree (fun a b => a = b ∧ R s a) (call body args) (call body args) := by
    rintro body args a b ⟨rfl, ha⟩
    exact ⟨rfl, rfl, htrans ha (hcall body args a)⟩
  exact (evaluate_agree hself operands f s s ⟨rfl, hrefl s⟩).2.2

end Fragment

end Dispatch
