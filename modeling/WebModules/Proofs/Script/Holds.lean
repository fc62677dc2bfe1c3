import WebModules.Script.Grammar

/-!
The syntax trees in what a clause of the grammar yields, and values all of whose trees satisfy a
predicate.
-/

namespace WebModules.Script

/-- Values in which trees may stand. -/
class Holds (α : Type) where
  trees : α → List Tree

/-- Values in which no trees stand. -/
class Treeless (α : Type) [Holds α] : Prop where
  trees_eq : ∀ a : α, Holds.trees a = []

section Holds

variable {α β : Type} [Holds α] [Holds β]

instance : Holds Tree := ⟨fun t => [t]⟩
instance : Holds (List α) := ⟨fun as => as.flatMap Holds.trees⟩
instance : Holds (Option α) := ⟨fun a? => a?.toList.flatMap Holds.trees⟩
instance : Holds (α × β) := ⟨fun p => Holds.trees p.1 ++ Holds.trees p.2⟩
instance : Holds (α ⊕ β) := ⟨Sum.elim Holds.trees Holds.trees⟩
instance : Holds Key := ⟨Key.parts⟩
instance : Holds Clause.Items := ⟨fun i => [i.tree]⟩

instance : Holds Callee where
  trees
    | .expression tree => [tree]
    | _ => []

instance : Holds Unit := ⟨fun _ => []⟩
instance : Holds Bool := ⟨fun _ => []⟩
instance : Holds Nat := ⟨fun _ => []⟩
instance : Holds Char := ⟨fun _ => []⟩
instance : Holds String := ⟨fun _ => []⟩
instance : Holds Token := ⟨fun _ => []⟩
instance : Holds Operator := ⟨fun _ => []⟩
instance : Holds Context := ⟨fun _ => []⟩
instance : Holds Notes := ⟨fun _ => []⟩
instance : Holds Clause.MemberHead := ⟨fun _ => []⟩
instance : Holds Clause.ImportHead := ⟨fun _ => []⟩
instance : Holds Clause.ExportName := ⟨fun _ => []⟩
instance : Holds Clause.Listed := ⟨fun _ => []⟩

instance : Treeless Unit := ⟨fun _ => rfl⟩
instance : Treeless Bool := ⟨fun _ => rfl⟩
instance : Treeless Nat := ⟨fun _ => rfl⟩
instance : Treeless Char := ⟨fun _ => rfl⟩
instance : Treeless String := ⟨fun _ => rfl⟩
instance : Treeless Token := ⟨fun _ => rfl⟩
instance : Treeless Operator := ⟨fun _ => rfl⟩
instance : Treeless Context := ⟨fun _ => rfl⟩
instance : Treeless Notes := ⟨fun _ => rfl⟩
instance : Treeless Clause.MemberHead := ⟨fun _ => rfl⟩
instance : Treeless Clause.ImportHead := ⟨fun _ => rfl⟩
instance : Treeless Clause.ExportName := ⟨fun _ => rfl⟩
instance : Treeless Clause.Listed := ⟨fun _ => rfl⟩

instance [Treeless α] : Treeless (List α) := ⟨fun as => by simp [Holds.trees, Treeless.trees_eq]⟩

instance [Treeless α] : Treeless (Option α) := ⟨fun a? => by simp [Holds.trees, Treeless.trees_eq]⟩

instance [Treeless α] [Treeless β] : Treeless (α × β) :=
  ⟨fun p => by simp [Holds.trees, Treeless.trees_eq]⟩

end Holds

/-- All trees in a value satisfy a predicate. -/
class AllTrees (P : Tree → Prop) {α : Type} [Holds α] (a : α) : Prop where
  sound : ∀ t ∈ Holds.trees a, P t

/-- A value all of whose trees satisfy a predicate. -/
structure Fitted (P : Tree → Prop) (α : Type) [Holds α] where
  val : α
  fit : AllTrees P val

namespace AllTrees

variable {P : Tree → Prop} {α β : Type} [Holds α] [Holds β]

theorem tree_iff {t : Tree} : AllTrees P t ↔ P t :=
  ⟨fun h => h.sound t (by simp [Holds.trees]), fun h => ⟨by simpa [Holds.trees] using h⟩⟩

theorem list_iff {as : List α} : AllTrees P as ↔ ∀ a ∈ as, AllTrees P a := by
  constructor
  · exact fun h a ha => ⟨fun t ht => h.sound t (List.mem_flatMap.2 ⟨a, ha, ht⟩)⟩
  · refine fun h => ⟨fun t ht => ?_⟩
    obtain ⟨a, ha, ht⟩ := List.mem_flatMap.1 ht
    exact (h a ha).sound t ht

theorem cons_iff {a : α} {as : List α} : AllTrees P (a :: as) ↔ AllTrees P a ∧ AllTrees P as := by
  simp only [list_iff, List.forall_mem_cons]

theorem some_iff {a : α} : AllTrees P (some a) ↔ AllTrees P a :=
  ⟨fun h => ⟨fun t ht => h.sound t (by simpa [Holds.trees] using ht)⟩,
    fun h => ⟨fun t ht => h.sound t (by simpa [Holds.trees] using ht)⟩⟩

theorem prod_iff {p : α × β} : AllTrees P p ↔ AllTrees P p.1 ∧ AllTrees P p.2 := by
  constructor
  · exact fun h => ⟨⟨fun t ht => h.sound t (List.mem_append_left _ ht)⟩,
      ⟨fun t ht => h.sound t (List.mem_append_right _ ht)⟩⟩
  · exact fun h => ⟨fun t ht => (List.mem_append.1 ht).elim (h.1.sound t) (h.2.sound t)⟩

theorem of_eq_some {a? : Option α} {a : α} [h : AllTrees P a?] (ha : a? = some a) : AllTrees P a :=
  some_iff.1 (ha ▸ h)

instance val (a : Fitted P α) : AllTrees P a.val := a.fit

instance treeless [Treeless α] (a : α) : AllTrees P a := ⟨by simp [Treeless.trees_eq]⟩

instance nil : AllTrees P ([] : List α) := list_iff.2 (by simp)

instance cons (a : α) (as : List α) [ha : AllTrees P a] [has : AllTrees P as] : AllTrees P (a :: as) :=
  list_iff.2 (List.forall_mem_cons.2 ⟨ha, list_iff.1 has⟩)

instance append (as bs : List α) [ha : AllTrees P as] [hb : AllTrees P bs] : AllTrees P (as ++ bs) :=
  list_iff.2 (List.forall_mem_append.2 ⟨list_iff.1 ha, list_iff.1 hb⟩)

instance reverse (as : List α) [h : AllTrees P as] : AllTrees P as.reverse :=
  list_iff.2 fun a ha => list_iff.1 h a (List.mem_reverse.1 ha)

instance tail (as : List α) [h : AllTrees P as] : AllTrees P as.tail :=
  list_iff.2 fun a ha => list_iff.1 h a (List.mem_of_mem_tail ha)

instance take (n : Nat) (as : List α) [h : AllTrees P as] : AllTrees P (as.take n) :=
  list_iff.2 fun a ha => list_iff.1 h a (List.mem_of_mem_take ha)

instance drop (n : Nat) (as : List α) [h : AllTrees P as] : AllTrees P (as.drop n) :=
  list_iff.2 fun a ha => list_iff.1 h a (List.mem_of_mem_drop ha)

instance dropLast (as : List α) [h : AllTrees P as] : AllTrees P as.dropLast :=
  list_iff.2 fun a ha => list_iff.1 h a (List.dropLast_subset as ha)

instance head? (as : List α) [h : AllTrees P as] : AllTrees P as.head? := by
  cases as with
  | nil => exact ⟨by simp [Holds.trees]⟩
  | cons a as => exact some_iff.2 (cons_iff.1 h).1

instance getLast? (as : List α) [h : AllTrees P as] : AllTrees P as.getLast? := by
  cases hl : as.getLast? with
  | none => exact ⟨by simp [Holds.trees]⟩
  | some a => exact some_iff.2 (list_iff.1 h a (List.mem_of_getLast? hl))

instance headD (as : List α) (a : α) [h : AllTrees P as] [h' : AllTrees P a] : AllTrees P (as.headD a) := by
  cases as with
  | nil => exact h'
  | cons a as => exact (cons_iff.1 h).1

instance map_fst (ps : List (α × β)) [h : AllTrees P ps] : AllTrees P (ps.map Prod.fst) := by
  refine list_iff.2 fun a ha => ?_
  obtain ⟨p, hp, rfl⟩ := List.mem_map.1 ha
  exact (prod_iff.1 (list_iff.1 h p hp)).1

instance none : AllTrees P (Option.none : Option α) := ⟨by simp [Holds.trees]⟩

instance some (a : α) [h : AllTrees P a] : AllTrees P (Option.some a) := some_iff.2 h

instance toList (a? : Option α) [h : AllTrees P a?] : AllTrees P a?.toList := ⟨h.sound⟩

instance getD (a? : Option α) (a : α) [h : AllTrees P a?] [h' : AllTrees P a] : AllTrees P (a?.getD a) := by
  cases a? with
  | none => exact h'
  | some a => exact some_iff.1 h

instance or (a? b? : Option α) [h : AllTrees P a?] [h' : AllTrees P b?] : AllTrees P (a?.or b?) := by
  cases a? with
  | none => exact h'
  | some a => exact h

instance map_fst? (p? : Option (α × β)) [h : AllTrees P p?] : AllTrees P (p?.map Prod.fst) := by
  cases p? with
  | none => exact none
  | some p => exact some_iff.2 (prod_iff.1 (some_iff.1 h)).1

instance map_snd? (p? : Option (α × β)) [h : AllTrees P p?] : AllTrees P (p?.map Prod.snd) := by
  cases p? with
  | none => exact none
  | some p => exact some_iff.2 (prod_iff.1 (some_iff.1 h)).2

instance pair (a : α) (b : β) [ha : AllTrees P a] [hb : AllTrees P b] : AllTrees P (a, b) := prod_iff.2 ⟨ha, hb⟩

instance fst (p : α × β) [h : AllTrees P p] : AllTrees P p.1 := (prod_iff.1 h).1

instance snd (p : α × β) [h : AllTrees P p] : AllTrees P p.2 := (prod_iff.1 h).2

instance inl (a : α) [h : AllTrees P a] : AllTrees P (.inl a : α ⊕ β) := ⟨h.sound⟩

instance inr (b : β) [h : AllTrees P b] : AllTrees P (.inr b : α ⊕ β) := ⟨h.sound⟩

instance ite (p : Prop) [Decidable p] (a b : α) [ha : AllTrees P a] [hb : AllTrees P b] :
    AllTrees P (if p then a else b) := by
  split
  · exact ha
  · exact hb

instance parts (key : Key) [h : AllTrees P key] : AllTrees P key.parts :=
  list_iff.2 fun t ht => tree_iff.2 (h.sound t ht)

instance expression (t : Tree) [h : AllTrees P t] : AllTrees P (Callee.expression t) := ⟨h.sound⟩

theorem of_expression {t : Tree} (h : AllTrees P (Callee.expression t)) : AllTrees P t := ⟨h.sound⟩

@[elab_as_elim]
theorem callee_cases {callee : Callee} (h : AllTrees P callee) {motive : Callee → Prop}
    (expression : ∀ t, AllTrees P t → motive (.expression t)) (superKeyword : motive .superKeyword)
    (importKeyword : motive .importKeyword) : motive callee := by
  cases callee with
  | expression t => exact expression t (of_expression h)
  | superKeyword => exact superKeyword
  | importKeyword => exact importKeyword

instance superKeyword : AllTrees P Callee.superKeyword := ⟨by simp [Holds.trees]⟩

instance importKeyword : AllTrees P Callee.importKeyword := ⟨by simp [Holds.trees]⟩

instance word (name : String) : AllTrees P (Key.word name) := ⟨by simp [Holds.trees, Key.parts]⟩

instance string : AllTrees P Key.string := ⟨by simp [Holds.trees, Key.parts]⟩

instance number : AllTrees P Key.number := ⟨by simp [Holds.trees, Key.parts]⟩

instance hashed (name : String) : AllTrees P (Key.hashed name) := ⟨by simp [Holds.trees, Key.parts]⟩

instance computed (t : Tree) [h : AllTrees P t] : AllTrees P (Key.computed t) := ⟨h.sound⟩

instance items (isParameter : Bool) (t : Tree) [h : AllTrees P t] :
    AllTrees P (⟨isParameter, t⟩ : Clause.Items) := ⟨h.sound⟩

instance items_tree (i : Clause.Items) [h : AllTrees P i] : AllTrees P i.tree := ⟨h.sound⟩

instance map_tree (is : List Clause.Items) [h : AllTrees P is] : AllTrees P (is.map Clause.Items.tree) := by
  refine list_iff.2 fun t ht => ?_
  obtain ⟨i, hi, rfl⟩ := List.mem_map.1 ht
  have := list_iff.1 h i hi
  exact items_tree i

end AllTrees

end WebModules.Script
