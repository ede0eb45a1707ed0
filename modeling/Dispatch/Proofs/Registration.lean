import Mathlib.Algebra.Group.Nat.Defs
import Mathlib.Data.List.Range
import Dispatch.Ty.Registry

/-!
# Numbers of new types

A registry numbers new types one after the other, and never looks at what is registered. Handles
from elsewhere may be registered under any number, so the number of a new type may be taken: then
the new type stands in the place of the handle that was there, and whatever goes by number takes
the one for the other. And as the counter has thirty-two bits, it gives out the numbers of the
built-in types once all user numbers are used up.

`Registry.Change` is what the history of a registry is made of. The numbers that are given out in
it follow each other from `firstUserId` on (`numbers_eq`), and the only other numbers that are
known are those of the built-in types and of handles from elsewhere (`contains_after`). So it can
be told from the history whether the number of a new type is fresh.

In the runtime: `TypeRegistry` (`allocate_type_id`, `register`, `define_class`, `define_delegate`).

Main statement: `define_fresh_iff`.
-/

namespace Dispatch.Registry

/-- A type that is made from the next number. -/
inductive Definition where
  | ofClass (name fullName : String)
  | ofDelegate (name fullName : String) (signature : List (Param Ty))

/-- The type that is defined, and the registry that knows it. -/
def Definition.define (r : Registry) : Definition → Ty × Registry
  | ofClass name fullName => r.defineClass name fullName
  | ofDelegate name fullName signature => r.defineDelegate name fullName signature

/-- What the history of a registry is made of. -/
inductive Change where
  | register (t : Ty)
  | allocate
  | define (definition : Definition)

/-- The number that is given out with a change, if one is, and the registry after it. -/
def change (r : Registry) : Change → Option UInt32 × Registry
  | .register t => (none, r.register t)
  | .allocate => (some r.allocate.1, r.allocate.2)
  | .define definition => (some (definition.define r).1.id, (definition.define r).2)

def after (r : Registry) (history : List Change) : Registry :=
  history.foldl (fun r c => (r.change c).2) r

/-- The numbers that are given out along a history, in order. -/
def numbers (r : Registry) : List Change → List UInt32
  | [] => []
  | c :: cs => (r.change c).1.toList ++ (r.change c).2.numbers cs

variable {r : Registry} {id : UInt32} {history : List Change}

theorem size_put (t : Ty) (ts : List Ty) :
    (put t ts).length = if (ts.find? fun u => u.id == t.id).isSome then ts.length
      else ts.length + 1 := by
  induction ts with
  | nil => rfl
  | cons u us ih =>
    rw [put]
    split
    next h => simp [h]
    next h =>
      rw [List.length_cons, ih, List.find?_cons_of_neg (by simpa using h)]
      split <;> rfl

theorem contains_register (r : Registry) (t : Ty) (id : UInt32) :
    (r.register t).contains id = (t.id == id || r.contains id) := by
  by_cases h : t.id = id
  · subst h
    simp [contains]
  · simp [contains, get?_register_of_ne h, h]

/-- A type is defined by registering one with the next number. -/
theorem Definition.define_eq (r : Registry) (definition : Definition) :
    ∃ t : Ty, t.id = r.next ∧ definition.define r = (t, r.allocate.2.register t) := by
  cases definition with
  | ofClass name fullName => exact ⟨_, rfl, rfl⟩
  | ofDelegate name fullName signature => exact ⟨_, rfl, rfl⟩

/-- With a change nothing is given out and a handle from elsewhere is registered, or the next number
is given out and no other one becomes known. -/
theorem change_cases (r : Registry) (c : Change) :
    (∃ t, c = .register t ∧ r.change c = (none, r.register t)) ∨
      (∀ t, c ≠ .register t) ∧ (r.change c).1 = some r.next ∧
        (r.change c).2.next = r.next + 1 ∧
        ∀ id, (r.change c).2.contains id = true → r.contains id = true ∨ id = r.next := by
  cases c with
  | register t => exact .inl ⟨t, rfl, rfl⟩
  | allocate => exact .inr ⟨nofun, rfl, rfl, fun id h => .inl h⟩
  | define definition =>
    obtain ⟨t, ht, hdefine⟩ := definition.define_eq r
    refine .inr ⟨nofun, ?_⟩
    rw [change, hdefine]
    refine ⟨congrArg some ht, rfl, fun id h => ?_⟩
    rw [contains_register, Bool.or_eq_true, beq_iff_eq, ht] at h
    exact h.symm.imp (fun h => h) Eq.symm

/-- What is known stays known. -/
theorem contains_change (h : r.contains id = true) (c : Change) :
    (r.change c).2.contains id = true := by
  cases c with
  | register t =>
    show (r.register t).contains id = true
    rw [contains_register, h, Bool.or_true]
  | allocate => exact h
  | define definition =>
    obtain ⟨t, -, hdefine⟩ := definition.define_eq r
    simp only [change, hdefine]
    rw [contains_register, Bool.or_eq_true]
    exact .inr h

theorem next_after (r : Registry) (history : List Change) :
    (r.after history).next = r.next + .ofNat (r.numbers history).length := by
  induction history generalizing r with
  | nil => simp [after, numbers]
  | cons c cs ih =>
    show ((r.change c).2.after cs).next = _
    rw [ih, numbers]
    rcases r.change_cases c with ⟨t, -, hc⟩ | ⟨-, hnumber, hnext, -⟩
    · rw [hc]
      rfl
    · rw [hnumber, hnext]
      simp [UInt32.ofNat_add, UInt32.add_assoc, UInt32.add_comm]

/-- Numbers are given out one after the other. -/
theorem numbers_eq (r : Registry) (history : List Change) :
    r.numbers history =
      (List.range (r.numbers history).length).map fun k => r.next + .ofNat k := by
  induction history generalizing r with
  | nil => rfl
  | cons c cs ih =>
    have hrest := ih (r.change c).2
    rw [numbers]
    rcases r.change_cases c with ⟨t, -, hc⟩ | ⟨-, hnumber, hnext, -⟩
    · rw [hc] at hrest ⊢
      exact hrest
    · rw [hnext] at hrest
      rw [hnumber, Option.toList_some, List.singleton_append, List.length_cons,
        List.range_succ_eq_map, List.map_cons, List.map_map]
      congr 1
      · simp
      · rw [hrest]
        simp [UInt32.ofNat_add, UInt32.add_assoc, UInt32.add_comm, Function.comp_def]

/-- A number that is known was known before, or belongs to a handle from elsewhere, or was given
out. -/
theorem contains_after (h : (r.after history).contains id = true) :
    r.contains id = true ∨ (∃ t, .register t ∈ history ∧ t.id = id) ∨ id ∈ r.numbers history := by
  induction history generalizing r with
  | nil => exact .inl h
  | cons c cs ih =>
    rw [numbers]
    have hrest : ((r.change c).2.after cs).contains id = true := h
    rcases ih hrest with hknown | ⟨t, ht, hid⟩ | hgiven
    · rcases r.change_cases c with ⟨t, rfl, hc⟩ | ⟨-, hnumber, -, hnew⟩
      · rw [hc, contains_register, Bool.or_eq_true, beq_iff_eq] at hknown
        rcases hknown with hid | hknown
        · exact .inr (.inl ⟨t, List.mem_cons_self, hid⟩)
        · exact .inl hknown
      · rcases hnew id hknown with hold | rfl
        · exact .inl hold
        · rw [hnumber]
          exact .inr (.inr List.mem_cons_self)
    · exact .inr (.inl ⟨t, List.mem_cons_of_mem _ ht, hid⟩)
    · exact .inr (.inr (List.mem_append_right _ hgiven))

theorem contains_after_of_contains (h : r.contains id = true) (history : List Change) :
    (r.after history).contains id = true := by
  induction history generalizing r with
  | nil => exact h
  | cons c cs ih => exact ih (contains_change h c)

/-- Handles from elsewhere are known by their numbers. -/
theorem contains_after_of_register {t : Ty} (h : .register t ∈ history) :
    (r.after history).contains t.id = true := by
  obtain ⟨before, later, rfl⟩ := List.append_of_mem h
  rw [after, List.foldl_append]
  refine contains_after_of_contains (r := (r.after before).register t) ?_ later
  rw [contains_register, beq_self_eq_true, Bool.true_or]

/-- The built-in types have numbers that are kept for them. -/
theorem isBuiltinId_of_initial (h : initial.contains id = true) : Ty.isBuiltinId id = true := by
  have hbuiltins : ∀ t ∈ Ty.builtins, Ty.isBuiltinId t.id = true := by decide
  obtain ⟨t, ht⟩ := Option.isSome_iff_exists.mp h
  have hid : t.id = id := by simpa using List.find?_some ht
  exact hid ▸ hbuiltins t (List.mem_of_find?_eq_some ht)

/-- The number is none of those kept for built-in types, none that was given out in the history, and
none that is known after it. -/
structure Fresh (history : List Change) (id : UInt32) : Prop where
  user : Ty.isBuiltinId id = false
  unused : id ∉ initial.numbers history
  unknown : (initial.after history).contains id = false

theorem toNat_firstUserId_add (n : Nat) :
    (Ty.firstUserId + .ofNat n : UInt32).toNat = (256 + n) % 2 ^ 32 := by
  rw [UInt32.toNat_add, UInt32.toNat_ofNat']
  simp [Ty.firstUserId]

/-- The number after `n` user numbers is none of these and none kept for built-in types as long as
there are more. -/
theorem user_and_unused_iff (n : Nat) :
    Ty.isBuiltinId (Ty.firstUserId + .ofNat n) = false ∧
        Ty.firstUserId + .ofNat n ∉ (List.range n).map (fun k => Ty.firstUserId + .ofNat k) ↔
      n < 2 ^ 32 - 256 := by
  have hbuiltin :
      Ty.isBuiltinId (Ty.firstUserId + .ofNat n) = false ↔ 256 ≤ (256 + n) % 2 ^ 32 := by
    rw [Ty.isBuiltinId, decide_eq_false_iff_not, UInt32.lt_iff_toNat_lt, toNat_firstUserId_add]
    exact Nat.not_lt
  have hused :
      Ty.firstUserId + .ofNat n ∈ (List.range n).map (fun k => Ty.firstUserId + .ofNat k) ↔
        ∃ k < n, (256 + k) % 2 ^ 32 = (256 + n) % 2 ^ 32 := by
    simp only [List.mem_map, List.mem_range, ← UInt32.toNat_inj, toNat_firstUserId_add]
  rw [hbuiltin, hused]
  constructor
  · rintro ⟨huser, hunused⟩
    by_contra hend
    -- the counter has started over, and stands at the number of an earlier one
    exact hunused ⟨(256 + n) % 2 ^ 32 - 256, by omega, by omega⟩
  · rintro hmore
    refine ⟨by omega, ?_⟩
    rintro ⟨k, hk, hsame⟩
    omega

/-- Whether the next number is fresh is told by how many were given out, and by the handles from
elsewhere. -/
theorem fresh_iff (hid : id = (initial.after history).next) :
    Fresh history id ↔ (initial.numbers history).length < 2 ^ 32 - 256 ∧
      ∀ u, .register u ∈ history → u.id ≠ id := by
  have hrange := user_and_unused_iff (initial.numbers history).length
  have hnumbers : initial.numbers history = (List.range (initial.numbers history).length).map
      fun k => Ty.firstUserId + .ofNat k :=
    numbers_eq initial history
  have hnext : id = Ty.firstUserId + .ofNat (initial.numbers history).length :=
    hid.trans (next_after initial history)
  rw [← hnumbers, ← hnext] at hrange
  constructor
  · rintro ⟨huser, hunused, hunknown⟩
    refine ⟨hrange.mp ⟨huser, hunused⟩, ?_⟩
    rintro u hu rfl
    exact Bool.eq_false_iff.mp hunknown (contains_after_of_register hu)
  · rintro ⟨hmore, helsewhere⟩
    obtain ⟨huser, hunused⟩ := hrange.mpr hmore
    refine ⟨huser, hunused, Bool.eq_false_iff.mpr fun hknown => ?_⟩
    rcases contains_after hknown with hbuiltin | ⟨u, hu, rfl⟩ | hgiven
    · exact absurd (isBuiltinId_of_initial hbuiltin) (by simp [huser])
    · exact helsewhere u hu rfl
    · exact hunused hgiven

theorem size_register (r : Registry) (t : Ty) :
    (r.register t).size = if r.contains t.id then r.size else r.size + 1 :=
  size_put t r.types

/-- A new type gets the number after those that were given out. The number is fresh just if there
are user numbers left and no handle from elsewhere has it. In any case the new type is known by it
afterwards, in the place of what was known by it before, and nothing changes for other numbers. -/
theorem define_fresh_iff (history : List Change) (definition : Definition) :
    ∃ t r', definition.define (initial.after history) = (t, r') ∧
      t.id = Ty.firstUserId + .ofNat (initial.numbers history).length ∧
      (Fresh history t.id ↔ (initial.numbers history).length < 2 ^ 32 - 256 ∧
        ∀ u, .register u ∈ history → u.id ≠ t.id) ∧
      r'.size = (if (initial.after history).contains t.id then (initial.after history).size
        else (initial.after history).size + 1) ∧
      r'.get? t.id = some t ∧
      ∀ id ≠ t.id, r'.get? id = (initial.after history).get? id ∧
        r'.contains id = (initial.after history).contains id ∧
        ∀ u, u.id = id → r'.identity u = (initial.after history).identity u := by
  obtain ⟨t, ht, hdefine⟩ := definition.define_eq (initial.after history)
  refine ⟨t, _, hdefine, ht.trans (next_after initial history), fresh_iff ht,
    size_register _ t, get?_register_self _ t, fun id hid => ?_⟩
  have hget : ((initial.after history).allocate.2.register t).get? id =
      (initial.after history).get? id :=
    get?_register_of_ne hid.symm
  refine ⟨hget, congrArg Option.isSome hget, ?_⟩
  rintro u rfl
  exact congrArg (Option.getD · u) hget

/-- The first user number is not fresh once a handle that carries it was registered: the class that
is defined next stands in its place. -/
theorem not_fresh_of_registered :
    let ghost := Ty.plain Ty.firstUserId "Ghost" "Test.Ghost" .record
    let r := initial.after [.register ghost]
    let (point, r') := (Definition.ofClass "Point" "Geo.Point").define r
    ¬ Fresh [.register ghost] point.id ∧ r'.size = r.size ∧ r.identity ghost = ghost ∧
      r'.identity ghost = point ∧ point ≠ ghost := by
  exact ⟨fun h => absurd h.unknown (by decide), rfl, rfl, rfl,
    fun h => absurd (congrArg Ty.name h) (by decide)⟩

end Dispatch.Registry
