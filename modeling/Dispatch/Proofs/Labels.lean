import Mathlib.Data.List.Nodup
import Dispatch.Dispatcher.Listing
import Dispatch.Proofs.Sharing

/-!
# What listings tell apart

A listing has one line for each shared binder of a kind, in the order of the labels
(`Dispatcher.labelled`). A label is written for people: nothing in it is quoted or escaped, a call
of a member shows how many arguments there are but not their names, and a destination shows its name
but not its number. So different operations may have one label, and `Operation.Alike` says which:
members of which one has the remark about case in its name, calls whose names are the same between
commas, calls of one member with one number of arguments, and types of one name. Operators always
have labels of their own, and so have members and calls whose names hold nothing that labels are
written with (`Operation.Plain`).

Three facts about text say that a label can be read back as far as this. A remark that may be there
or not leaves one way to take one text for the other (`append_remark_eq_iff`). A number ends where
something comes that is no digit (`digits_append_eq_iff`). And a list of names that is joined with
commas can be read back but for where the names begin and end (`splitOn_joined`).

In the runtime: `cached_shapes` and the labels of `CallShape`, `MemberKey`, `InvokeMemberKey`,
`BinaryKey` and `HostType`.

Main statement: the lines of a listing are the shared binders of the kind, each once and in the
order of their labels; labels are equal just for operations that are alike; and the labels from the
first line to the last depend only on which operations are shared, not on the order in which they
were requested (`listed_once_in_order`).
-/

namespace Dispatch

/-! ## Texts that are written one behind the other -/

/-- Two texts, each with or without a remark behind it. -/
theorem append_remark_eq_iff {a b remark : String} {f g : Bool} :
    (a ++ if f then remark else "") = (b ++ if g then remark else "") ↔
      (f = g ∧ a = b) ∨ (f = false ∧ g = true ∧ a = b ++ remark) ∨
        (f = true ∧ g = false ∧ b = a ++ remark) := by
  cases f <;> cases g <;> simp [eq_comm]

/-- Digits can be told from what comes behind them, if that does not begin with a digit. -/
theorem digits_append_eq_iff {p q s t : List Char} (hp : ∀ c ∈ p, c.isDigit)
    (hq : ∀ c ∈ q, c.isDigit) (hs : ∀ c ∈ s.head?, ¬ c.isDigit) (ht : ∀ c ∈ t.head?, ¬ c.isDigit) :
    p ++ s = q ++ t ↔ p = q ∧ s = t := by
  have hread {ds rest : List Char} (hds : ∀ c ∈ ds, c.isDigit)
      (hrest : ∀ c ∈ rest.head?, ¬ c.isDigit) : (ds ++ rest).takeWhile Char.isDigit = ds := by
    rw [List.takeWhile_append_of_pos hds]
    cases rest with
    | nil => simp
    | cons c rest => simp [hrest c rfl]
  constructor
  · intro h
    have hdigits : p = q := by rw [← hread hp hs, h, hread hq ht]
    subst hdigits
    exact ⟨rfl, List.append_cancel_left h⟩
  · rintro ⟨rfl, rfl⟩
    rfl

theorem isDigit_of_mem_number (n : Nat) : ∀ c ∈ (toString n).toList, c.isDigit := by
  rw [Nat.toString_eq_repr, Nat.toList_repr]
  exact fun c hc => Nat.isDigit_of_mem_toDigits (by decide) (Nat.le_refl 10) hc

theorem number_eq_iff {m n : Nat} : (toString m).toList = (toString n).toList ↔ m = n := by
  refine ⟨fun h => ?_, fun h => by rw [h]⟩
  rw [Nat.toString_eq_repr, Nat.toString_eq_repr, Nat.toList_repr, Nat.toList_repr] at h
  have hread := congrArg (Nat.ofDigitChars 10 · 0) h
  simpa only [Nat.ofDigitChars_toDigits (show 1 < 10 by decide) (Nat.le_refl 10)] using hread

/-- Cut at a separator, what was joined with it falls into the pieces of its parts. -/
theorem splitOn_joined (separator : Char) {parts : List (List Char)} (h : parts ≠ []) :
    ([separator].intercalate parts).splitOn separator =
      parts.flatMap fun part => part.splitOn separator := by
  induction parts with
  | nil => exact absurd rfl h
  | cons part rest ih =>
    cases rest with
    | nil => simp
    | cons next rest =>
      rw [List.intercalate_cons_cons, List.append_assoc, List.singleton_append,
        List.splitOn_append_cons_self, ih (List.cons_ne_nil _ _)]
      exact List.flatMap_cons.symm

/-! ## When labels are equal -/

/-- A member that counts as another: it is the same, or one of them ignores case, and the other has
the remark that says so in its name. -/
def MemberName.Alike (m n : MemberName) : Prop :=
  m = n ∨ (m.ignoreCase = false ∧ n.ignoreCase = true ∧ m.name = n.name ++ " (ignore case)") ∨
    (m.ignoreCase = true ∧ n.ignoreCase = false ∧ n.name = m.name ++ " (ignore case)")

/-- A name that does not end like the remark about case. -/
def MemberName.Plain (m : MemberName) : Prop :=
  ∀ stem, m.name ≠ stem ++ " (ignore case)"

theorem MemberName.eq_of_alike {m n : MemberName} (hm : m.Plain) (hn : n.Plain) (h : m.Alike n) :
    m = n := by
  rcases h with heq | ⟨-, -, hname⟩ | ⟨-, -, hname⟩
  · exact heq
  · exact absurd hname (hm n.name)
  · exact absurd hname (hn m.name)

theorem MemberName.label_eq_iff {m n : MemberName} : m.label = n.label ↔ m.Alike n := by
  obtain ⟨a, f⟩ := m
  obtain ⟨b, g⟩ := n
  rw [label, label, append_remark_eq_iff, Alike, mk.injEq, and_comm]

namespace CallShape

/-- The names, cut at their commas. -/
def pieces (c : CallShape) : List (List Char) :=
  (c.names.map String.toList).flatMap fun name => name.splitOn ','

/-- Calls of one number of arguments, whose names are the same between commas. -/
def Alike (c c' : CallShape) : Prop :=
  c.count = c'.count ∧ c.pieces = c'.pieces

/-- No name holds a comma. -/
def Plain (c : CallShape) : Prop :=
  ∀ name ∈ c.names, ',' ∉ name.toList

theorem Plain.pieces_eq {c : CallShape} (h : c.Plain) : c.pieces = c.names.map String.toList := by
  have hcut : ∀ name ∈ c.names.map String.toList, name.splitOn ',' = [name] := by
    intro name hname
    obtain ⟨written, hwritten, rfl⟩ := List.mem_map.mp hname
    exact List.splitOn_eq_singleton (h written hwritten)
  rw [pieces, List.flatMap_congr hcut, List.flatMap_singleton']

theorem eq_of_alike {c c' : CallShape} (hc : c.Plain) (hc' : c'.Plain) (h : c.Alike c') :
    c = c' := by
  obtain ⟨count, names, hnames⟩ := c
  obtain ⟨count', names', hnames'⟩ := c'
  obtain ⟨hcount, hpieces⟩ := h
  rw [hc.pieces_eq, hc'.pieces_eq] at hpieces
  cases hcount
  cases List.map_injective_iff.mpr (fun _ _ => String.toList_inj.mp) hpieces
  rfl

theorem pieces_eq_nil_iff {c : CallShape} : c.pieces = [] ↔ c.names = [] := by
  obtain ⟨count, names, hnames⟩ := c
  cases names with
  | nil => simp [pieces]
  | cons name rest => simp [pieces, List.splitOn_ne_nil]

/-- The pieces are what can be read back of the names. -/
theorem splitOn_joined_names {c : CallShape} (h : c.names ≠ []) :
    (",".intercalate c.names).toList.splitOn ',' = c.pieces := by
  rw [String.toList_intercalate]
  exact splitOn_joined ',' (by simpa using h)

/-- The pieces are all that is written of the names. -/
theorem joined_pieces (c : CallShape) :
    [','].intercalate c.pieces = (",".intercalate c.names).toList := by
  by_cases h : c.names = []
  · simp [h, pieces]
  · rw [← splitOn_joined_names h]
    exact List.intercalate_splitOn ','

/-- What a label has behind the number of arguments. -/
def nameList (c : CallShape) : List Char :=
  if c.names = [] then [] else '(' :: (",".intercalate c.names).toList ++ [')']

theorem toList_label (c : CallShape) :
    c.label.toList = "Args".toList ++ ((toString c.count).toList ++ c.nameList) := by
  rw [label, nameList]
  by_cases h : c.names = [] <;> simp [h]

theorem nameList_eq_iff {c c' : CallShape} : c.nameList = c'.nameList ↔ c.pieces = c'.pieces := by
  constructor
  · intro h
    unfold nameList at h
    split at h <;> split at h
    next hc hc' => rw [pieces_eq_nil_iff.mpr hc, pieces_eq_nil_iff.mpr hc']
    next => cases h
    next => cases h
    next hc hc' =>
      rw [← splitOn_joined_names hc, ← splitOn_joined_names hc',
        List.append_cancel_right (List.cons.inj h).2]
  · intro h
    have hnone : c.names = [] ↔ c'.names = [] := by
      rw [← pieces_eq_nil_iff, ← pieces_eq_nil_iff, h]
    simp only [nameList, hnone, ← joined_pieces, h]

theorem head?_nameList (c : CallShape) : ∀ x ∈ c.nameList.head?, ¬ x.isDigit := by
  unfold nameList
  split
  next => nofun
  next =>
    rintro x ⟨⟩
    decide

theorem label_eq_iff {c c' : CallShape} : c.label = c'.label ↔ c.Alike c' := by
  rw [← String.toList_inj, toList_label, toList_label, List.append_right_inj,
    digits_append_eq_iff (isDigit_of_mem_number _) (isDigit_of_mem_number _) c.head?_nameList
      c'.head?_nameList, number_eq_iff, nameList_eq_iff, Alike]

end CallShape

theorem BinaryOperator.symbol_injective : Function.Injective symbol := by
  intro a b h
  cases a <;> cases b <;> first | rfl | exact absurd h (by decide)

theorem BinaryOperator.length_symbol (a : BinaryOperator) : a.symbol.length ≤ 2 := by
  cases a <;> decide

/-- No symbol is long enough to hold the remark about division. -/
theorem BinaryRequest.label_injective : Function.Injective label := by
  rintro ⟨a, f⟩ ⟨b, g⟩ h
  have hshort {a b : BinaryOperator} : a.symbol ≠ b.symbol ++ " (integer)" := by
    intro heq
    have hlength := a.length_symbol
    rw [heq, String.length_append, show " (integer)".length = 10 from rfl] at hlength
    omega
  rcases append_remark_eq_iff.mp h with ⟨hflags, hsymbols⟩ | ⟨-, -, heq⟩ | ⟨-, -, heq⟩
  · simp only at hflags hsymbols
    rw [hflags, BinaryOperator.symbol_injective hsymbols]
  · exact absurd heq hshort
  · exact absurd heq hshort

theorem UnaryOperator.symbol_injective : Function.Injective symbol := by
  intro a b h
  cases a <;> cases b <;> first | rfl | exact absurd h (by decide)

namespace Operation

/-- Operations of one kind that labels do not tell apart. -/
def Alike : Operation → Operation → Prop
  | getMember m, getMember n | setMember m, setMember n => m.Alike n
  | getIndex call, getIndex call' | setIndex call, setIndex call' | invoke call, invoke call' =>
    call.Alike call'
  | invokeMember m call, invokeMember n call' => m.Alike n ∧ call.count = call'.count
  | binary request, binary request' => request = request'
  | unary operator, unary operator' => operator = operator'
  | convert destination, convert destination' => destination.name = destination'.name
  | _, _ => False

theorem label_invokeMember_eq_iff {m n : MemberName} {call call' : CallShape} :
    (invokeMember m call).label = (invokeMember n call').label ↔
      m.Alike n ∧ call.count = call'.count := by
  have hmark (text : List Char) : ∀ c ∈ ('#' :: text).head?, ¬ c.isDigit := by
    rintro c ⟨⟩
    decide
  -- from behind, a label begins with the number
  have hbehind (m : MemberName) (call : CallShape) : (invokeMember m call).label.toList.reverse =
      (toString call.count).toList.reverse ++ '#' :: m.label.toList.reverse := by
    simp [label]
  have hnumber (n : Nat) : ∀ c ∈ (toString n).toList.reverse, c.isDigit := fun c hc =>
    isDigit_of_mem_number n c (List.mem_reverse.mp hc)
  rw [← MemberName.label_eq_iff, ← String.toList_inj, ← List.reverse_inj, hbehind, hbehind,
    digits_append_eq_iff (hnumber _) (hnumber _) (hmark _) (hmark _), List.reverse_inj,
    number_eq_iff, List.cons_inj_right, List.reverse_inj, String.toList_inj, and_comm]

/-- Labels of operations of one kind are equal just if the operations are alike. -/
theorem label_eq_iff {a b : Operation} (h : a.kind = b.kind) : a.label = b.label ↔ a.Alike b := by
  cases a with
  | getMember m | setMember m =>
    cases b with
    | getMember n | setMember n => first | exact MemberName.label_eq_iff | cases h
    | _ => cases h
  | getIndex call | setIndex call | invoke call =>
    cases b with
    | getIndex call' | setIndex call' | invoke call' =>
      first | exact CallShape.label_eq_iff | cases h
    | _ => cases h
  | invokeMember m call =>
    cases b with
    | invokeMember n call' => exact label_invokeMember_eq_iff
    | _ => cases h
  | binary request =>
    cases b with
    | binary request' => exact BinaryRequest.label_injective.eq_iff
    | _ => cases h
  | unary operator =>
    cases b with
    | unary operator' => exact UnaryOperator.symbol_injective.eq_iff
    | _ => cases h
  | convert destination =>
    cases b with
    | convert destination' => exact Iff.rfl
    | _ => cases h

/-- The label says all that there is to say, and nothing in the names can be taken for a part of how
labels are written. -/
def Plain : Operation → Prop
  | getMember m | setMember m => m.Plain
  | getIndex call | setIndex call | invoke call => call.Plain
  | invokeMember m call => m.Plain ∧ call.names = []
  | binary _ | unary _ => True
  | convert _ => False

/-- Plain operations that are alike are the same. -/
theorem eq_of_alike {a b : Operation} (ha : a.Plain) (hb : b.Plain) (h : a.Alike b) : a = b := by
  cases a with
  | getMember m | setMember m =>
    cases b with
    | getMember n | setMember n =>
      first | exact congrArg _ (MemberName.eq_of_alike ha hb h) | cases h
    | _ => cases h
  | getIndex call | setIndex call | invoke call =>
    cases b with
    | getIndex call' | setIndex call' | invoke call' =>
      first | exact congrArg _ (CallShape.eq_of_alike ha hb h) | cases h
    | _ => cases h
  | invokeMember m call =>
    cases b with
    | invokeMember n call' =>
      obtain ⟨count, names, hnames⟩ := call
      obtain ⟨count', names', hnames'⟩ := call'
      cases ha.2
      cases hb.2
      cases h.2
      cases MemberName.eq_of_alike ha.1 hb.1 h.1
      rfl
    | _ => cases h
  | binary request =>
    cases b with
    | binary request' => exact congrArg binary h
    | _ => cases h
  | unary operator =>
    cases b with
    | unary operator' => exact congrArg unary h
    | _ => cases h
  | convert destination => exact ha.elim

end Operation

/-! ## The lines of a listing -/

namespace Dispatcher

variable {d d' : Dispatcher} {kind : Operation.Kind}

/-- The lines of a kind are its shared binders, each with the label of its operation. -/
theorem labelled_perm (d : Dispatcher) (kind : Operation.Kind) :
    (d.labelled kind).Perm ((d.sharedOf kind).map fun entry => (entry.1.label, entry.2)) :=
  List.mergeSort_perm ..

theorem pairwise_labelled (d : Dispatcher) (kind : Operation.Kind) :
    (d.labelled kind).Pairwise fun line next => line.1 ≤ next.1 := by
  have hsorted : (d.labelled kind).Pairwise fun line next => decide (line.1 ≤ next.1) = true := by
    refine List.pairwise_mergeSort (fun a b c hab hbc => ?_) (fun a b => ?_) _
    · simp only [decide_eq_true_eq] at hab hbc ⊢
      exact String.le_trans hab hbc
    · simp only [Bool.or_eq_true, decide_eq_true_eq]
      exact String.le_total a.1 b.1
  exact hsorted.imp fun h => of_decide_eq_true h

namespace Orderly

theorem nodup_numbers_labelled (h : d.Orderly) (kind : Operation.Kind) :
    ((d.labelled kind).map Prod.snd).Nodup := by
  rw [((labelled_perm d kind).map Prod.snd).nodup_iff, List.map_map]
  have hnumbers : (d.shared.map Prod.snd).Nodup := by
    have hnodup := h.nodup_numbers
    rwa [table, List.map_map] at hnodup
  exact hnumbers.sublist (List.filter_sublist.map Prod.snd)

/-- No operation has two binders. -/
theorem nodup_operations (h : d.Orderly) (kind : Operation.Kind) :
    ((d.sharedOf kind).map Prod.fst).Nodup := by
  have hkeys : ((d.shared.map Prod.fst).map Operation.key).Nodup := by
    have hnodup := h.nodup_keys
    rw [keys, table, List.map_map] at hnodup
    rwa [List.map_map]
  exact (hkeys.of_map _).sublist (List.filter_sublist.map Prod.fst)

/-- The labels from the first line to the last depend only on which operations are shared. -/
theorem labels_eq (h : d.Orderly) (h' : d'.Orderly)
    (hsame : ∀ op, op ∈ (d.sharedOf kind).map Prod.fst ↔ op ∈ (d'.sharedOf kind).map Prod.fst) :
    (d.labelled kind).map Prod.fst = (d'.labelled kind).map Prod.fst := by
  have hlabels (d : Dispatcher) : ((d.labelled kind).map Prod.fst).Perm
      (((d.sharedOf kind).map Prod.fst).map Operation.label) := by
    have hperm := (labelled_perm d kind).map Prod.fst
    rwa [List.map_map] at hperm ⊢
  have hsorted (d : Dispatcher) : ((d.labelled kind).map Prod.fst).Pairwise (· ≤ ·) :=
    List.pairwise_map.mpr (pairwise_labelled d kind)
  have hshared := (List.perm_ext_iff_of_nodup (h.nodup_operations kind)
    (h'.nodup_operations kind)).mpr hsame
  -- two orders of the same labels are the same list
  exact List.Perm.eq_of_pairwise (fun _ _ _ _ => String.le_antisymm) (hsorted d) (hsorted d')
    ((hlabels d).trans ((hshared.map Operation.label).trans (hlabels d').symm))

end Orderly

theorem kind_of_mem_sharedOf {entry : Operation × Nat} (h : entry ∈ d.sharedOf kind) :
    entry.1.kind = kind :=
  of_decide_eq_true (List.mem_filter.mp h).2

/-- Listings name every shared binder once. In whatever order a new dispatcher is asked for binders
and told to drop them: the lines of a kind are its shared binders, each once, in the order of their
labels; two labels are equal just if the operations are alike, so plain operations with one label
have one binder; and after another history that shares the same operations the labels are the same,
from the first line to the last. -/
theorem listed_once_in_order (settings : Settings) (types : Registry) (storage : Identity)
    (history : List Demand) (kind : Operation.Kind) :
    let d := (new settings types storage).after history
    (∀ label number, (label, number) ∈ d.labelled kind ↔
      ∃ op, (op, number) ∈ d.sharedOf kind ∧ op.label = label) ∧
    ((d.labelled kind).map Prod.snd).Nodup ∧
    (d.labelled kind).Pairwise (fun line next => line.1 ≤ next.1) ∧
    (∀ a i b j, (a, i) ∈ d.sharedOf kind → (b, j) ∈ d.sharedOf kind →
      (a.label = b.label ↔ a.Alike b) ∧ (a.Plain → b.Plain → a.label = b.label → i = j)) ∧
    ∀ other, let d' := (new settings types storage).after other
      (∀ op, op ∈ (d.sharedOf kind).map Prod.fst ↔ op ∈ (d'.sharedOf kind).map Prod.fst) →
        (d.labelled kind).map Prod.fst = (d'.labelled kind).map Prod.fst := by
  intro d
  have hd : d.Orderly := orderly_after (orderly_new settings types storage) history
  refine ⟨fun label number => ?_, hd.nodup_numbers_labelled kind, pairwise_labelled d kind,
    fun a i b j ha hb => ?_, fun other => ?_⟩
  · rw [(labelled_perm d kind).mem_iff, List.mem_map]
    constructor
    · rintro ⟨⟨op, i⟩, hentry, heq⟩
      cases heq
      exact ⟨op, hentry, rfl⟩
    · rintro ⟨op, hentry, rfl⟩
      exact ⟨(op, number), hentry, rfl⟩
  · have hkind : a.kind = b.kind := (kind_of_mem_sharedOf ha).trans (kind_of_mem_sharedOf hb).symm
    have hiff := Operation.label_eq_iff hkind
    refine ⟨hiff, fun hplain hplain' hlabel => ?_⟩
    have hop : a = b := Operation.eq_of_alike hplain hplain' (hiff.mp hlabel)
    exact congrArg Prod.snd (List.inj_on_of_nodup_map (hd.nodup_operations kind) ha hb hop)
  · exact hd.labels_eq (orderly_after (orderly_new settings types storage) other)

/-- Two members that are requested in one order or the other. -/
theorem listed_once_in_order_members :
    let d := (new {} .initial ⟨0⟩).after
      [.request (.getMember ⟨"y", false⟩), .request (.getMember ⟨"x", true⟩)]
    let d' := (new {} .initial ⟨0⟩).after
      [.request (.getMember ⟨"x", true⟩), .request (.getMember ⟨"y", false⟩)]
    (d.sharedOf .getMember = [(.getMember ⟨"y", false⟩, 0), (.getMember ⟨"x", true⟩, 1)] ∧
      d'.sharedOf .getMember = [(.getMember ⟨"x", true⟩, 0), (.getMember ⟨"y", false⟩, 1)]) ∧
    (d.labelled .getMember).map Prod.fst = (d'.labelled .getMember).map Prod.fst ∧
    ¬ Operation.Alike (.getMember ⟨"y", false⟩) (.getMember ⟨"x", true⟩) ∧
    Operation.Plain (.getMember ⟨"y", false⟩) ∧
    ∀ number, (.getMember ⟨"y", false⟩, number) ∈ d.sharedOf .getMember → 0 = number := by
  intro d d'
  have hd : d.sharedOf .getMember = [(.getMember ⟨"y", false⟩, 0), (.getMember ⟨"x", true⟩, 1)] :=
    rfl
  have hd' : d'.sharedOf .getMember = [(.getMember ⟨"x", true⟩, 0), (.getMember ⟨"y", false⟩, 1)] :=
    rfl
  have hplain : Operation.Plain (.getMember ⟨"y", false⟩) := by
    intro stem heq
    have hlength := congrArg String.length heq
    rw [String.length_append, show " (ignore case)".length = 14 from rfl,
      show "y".length = 1 from rfl] at hlength
    omega
  obtain ⟨-, -, -, htold, hlabels⟩ := listed_once_in_order {} .initial ⟨0⟩
    [.request (.getMember ⟨"y", false⟩), .request (.getMember ⟨"x", true⟩)] .getMember
  refine ⟨⟨hd, hd'⟩, hlabels _ fun op => ?_, fun halike => ?_, hplain, fun number hnumber => ?_⟩
  · rw [hd, hd']
    simp [or_comm]
  · exact absurd ((htold _ 0 _ 1 (by rw [hd]; simp) (by rw [hd]; simp)).1.mpr halike) (by decide)
  · exact (htold _ 0 _ number (by rw [hd]; simp) hnumber).2 hplain hplain rfl

/-- A remark about case, commas and the names of arguments are not told from what they look like. -/
theorem two_with_one_label :
    let d := (new {} .initial ⟨0⟩).after
      [.request (.getMember ⟨"x (ignore case)", false⟩), .request (.getMember ⟨"x", true⟩),
        .request (.invoke ⟨2, ["a,b"], by decide⟩), .request (.invoke ⟨2, ["a", "b"], by decide⟩),
        .request (.invokeMember ⟨"y", false⟩ (.positional 1)),
        .request (.invokeMember ⟨"y", false⟩ ⟨1, ["b"], by decide⟩)]
    d.keys.Nodup ∧
      ((d.sharedOf .getMember).map fun entry => (entry.1.label, entry.2)) =
        [("x (ignore case)", 0), ("x (ignore case)", 1)] ∧
      ((d.sharedOf .invoke).map fun entry => (entry.1.label, entry.2)) =
        [("Args2(a,b)", 2), ("Args2(a,b)", 3), ("Args1", 4), ("Args1(b)", 6)] ∧
      ((d.sharedOf .invokeMember).map fun entry => (entry.1.label, entry.2)) =
        [("y#1", 5), ("y#1", 7)] := by
  decide

end Dispatcher

end Dispatch
