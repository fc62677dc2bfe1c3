import WebModules.Proofs.Script.Grammar.Expression
import WebModules.Proofs.Script.Nesting.Class

/-!
Expressions have trees within each other, and take tokens.
-/

namespace WebModules.Script

open Clause

set_option synthInstance.maxSize 100000000

variable {m : Machine} {g : Grade} {lo hi : Nat} {next : Option Token} [m.Nesting]

instance nests_expressionBody [g.Weaker .solid] : Nests m g lo hi next expressionBody := by
  unfold expressionBody
  refine nests_here (k := .solid) ?_
  infer_instance

instance : Reads spreadable .solid := ⟨⟩

instance nests_spreadable [g.Weaker .solid] : Nests m g lo hi next spreadable := by
  unfold spreadable
  refine nests_here (k := .solid) ?_
  infer_instance

instance nests_arguments : Nests m .any lo hi next arguments := by
  unfold arguments
  dsimp only
  infer_instance

instance nests_array : Nests m .solid lo hi next array := by
  unfold array
  dsimp only
  refine nests_here (k := .solid) ?_
  infer_instance

instance nests_propertyFunction (first : Nat) (key : Key) (kind : FunctionKind)
    (wanted : ParameterRule) [AllTrees (Grade.any.Of lo hi) key] :
    Nests m .any lo hi next (propertyFunction first key kind wanted) := by
  unfold propertyFunction
  infer_instance

instance nests_wordFunction (first : Nat) (modified : Bool) (name : String) :
    Nests m .any lo hi next (wordFunction first modified name) := by
  unfold wordFunction
  infer_instance

instance nests_wordProperty (first keyFirst : Nat) (modified : Bool) (name : String) :
    Nests m .any lo hi next (wordProperty first keyFirst modified name) := by
  unfold wordProperty
  dsimp only
  infer_instance

instance nests_propertyTail (first keyFirst : Nat) (modified : Bool) (key : Key) [AtMost lo first] [Below first hi]
    [AllTrees (Grade.any.Of lo hi) key] : Nests m .any lo hi next (propertyTail first keyFirst modified key) := by
  unfold propertyTail
  cases key <;> infer_instance

instance nests_property : Nests m .any lo hi next property := by
  unfold property
  refine nests_here (k := .any) ?_
  infer_instance

/-- The properties end with a brace. -/
instance moves_properties (property : Clause Tree) : Moves m (properties property) true := by
  unfold properties
  refine (takes_first (takes_repeating fun (found, comma) => ends_eat ?_)).moves
  refine ends_later fun property => ends_later fun closed => ends_ite (ends_inl _) ?_
  exact ends_later fun comma => ends_later fun _ => ends_later fun closed => ends_ite (ends_inl _) (ends_inl _)

instance nests_object [g.Weaker .solid] : Nests m g lo hi next object := by
  unfold object
  dsimp only
  refine nests_here (k := .solid) (nests_mark _ (h := nests_then fun n _ => ?_))
  refine nests_next (k := .any) inferInstance fun n' found => ?_
  split <;> infer_instance

instance nests_template (tagged : Bool) : Nests m .any lo hi next (template tagged) := by
  unfold template
  infer_instance

theorem nests_regex {token : Token} (h : Lexer.IsSlash token) : Nests m .solid lo hi (some token) regex := by
  unfold regex
  refine nests_here (k := .solid) (nests_mark _ (h := nests_regexToken h fun token _ => ?_))
  infer_instance

instance : Nests m .solid lo hi (some (.sign .divide)) regex := nests_regex (.inl rfl)
instance : Nests m .solid lo hi (some (.sign (.assignWith .divide))) regex := nests_regex (.inr rfl)

instance (first : Nat) (test : Tree) : Reads (conditionalTail first test) .solid := ⟨⟩

instance nests_conditionalTail (first : Nat) (test : Tree) [Below first hi] [AllTrees (Grade.solid.Of first hi) test] :
    Nests m .solid first hi next (conditionalTail first test) := by
  unfold conditionalTail
  infer_instance

instance nests_simpleTarget (target : Tree) [h : AllTrees (Grade.any.Of lo hi) target] :
    Nests m .any lo hi next (simpleTarget target) := by
  have hassigned (hpart : target.shape.isPart = false) :
      Nests m .any lo hi next (return target.reshape (.assigned target.shape)) :=
    @nests_pure _ _ _ _ _ _ _ _ (h.assigned hpart)
  unfold simpleTarget
  split
  all_goals first | exact hassigned (by simp only [*]; rfl) | infer_instance

instance nests_patternTarget (pattern : Tree) [h : AllTrees (Grade.any.Of lo hi) pattern] :
    Nests m .any lo hi next (patternTarget pattern) := by
  unfold patternTarget
  split
  · obtain ⟨htarget, -⟩ := AllTrees.cons_iff.1 (AllTrees.of_node h)
    infer_instance
  · infer_instance

instance (first : Nat) (target : Tree) : Reads (assignmentTail first target) .solid := ⟨⟩

instance nests_assignmentTail (first : Nat) (target : Tree) [Below first hi]
    [AllTrees (Grade.solid.Of first hi) target] : Nests m .solid first hi next (assignmentTail first target) := by
  unfold assignmentTail
  refine nests_current fun token => ?_
  split <;> infer_instance

instance moves_spreadable : Moves m spreadable true :=
  (takes_later fun _ => takes_later fun _ => takes_ite (takes_first (takes_of_moves _)) (takes_of_moves _)).moves

instance moves_itemStart (first : Nat) : Moves m (itemStart first) true := by
  refine (takes_later fun isSpread => takes_later fun isName => takes_later fun isAheadName => ?_).moves
  refine takes_ite (takes_later fun dots => ?_) (takes_of_moves _)
  exact takes_ite (takes_first (takes_of_moves _)) (takes_first (takes_of_moves _))

instance (first : Nat) : Reads (itemStart first) .solid := ⟨⟩

instance nests_itemStart (first : Nat) [AtMost first hi] : Nests m .solid first hi next (itemStart first) := by
  unfold itemStart
  refine nests_peek _ _ (h := fun isSpread => nests_peek _ _ (h := fun isName => nests_peek _ _ (h := fun isAheadName => ?_)))
  split
  · infer_instance
  · have : Nests m .solid first hi next spreadable := nests_spreadable
    infer_instance

instance nests_itemAsParameter (first : Nat) (isSpread : Bool) (inner : Tree) [AllTrees (Grade.any.Of lo hi) inner] :
    Nests m .any lo hi next (itemAsParameter first isSpread inner) := by
  unfold itemAsParameter
  dsimp only
  infer_instance

instance nests_parenthesizedItem : Nests m .any lo hi next parenthesizedItem := by
  unfold parenthesizedItem
  dsimp only
  refine nests_here (k := .any) ?_
  infer_instance


/-- An item that is no parameter is an expression. -/
theorem nests_expressionItem : Nests m .solid lo hi next (do
    let item ← parenthesizedItem
    if item.isParameter then fail .here .emptyParens else return item.tree) := by
  unfold parenthesizedItem
  dsimp only
  have := @nests_decide m .solid hi
  refine nests_here (k := .solid) ?_
  infer_instance

theorem parenthesizedItem_solid {c : Context} {s t : State} {item : Items} (hs : s.Regular)
    (h : parenthesizedItem.exec m.call m.limit c s = .read item t) (hi : item.isParameter = false) :
    item.tree.Solid s.count t.count := by
  refine AllTrees.tree_iff.1 ((nests_expressionItem (m := m)).nests c s item.tree t hs rfl s.next_none (Nat.le_refl _) ?_)
  simp only [Bind.bind, Clause.exec, h, hi, Bool.false_eq_true, if_false]
  rfl

/-- The items that are no parameters are expressions, one after the other. -/
class Row (lo hi : Nat) (items : List Items) : Prop where
  solid : ∀ item ∈ items, item.isParameter = false → item.tree.Solid lo hi
  ordered : items.Pairwise fun a b => a.isParameter = false → b.isParameter = false → a.tree.stop ≤ b.tree.first

theorem Row.nil (lo hi : Nat) : Row lo hi [] := ⟨by simp, .nil⟩

theorem Row.append {lo mid hi : Nat} {items : List Items} {item : Items} (h : Row lo mid items) (hlo : lo ≤ mid)
    (hhi : mid ≤ hi) (hitem : item.isParameter = false → item.tree.Solid mid hi) : Row lo hi (items ++ [item]) := by
  refine ⟨fun other hother hp => ?_, List.pairwise_append.2 ⟨h.ordered, .cons (by simp) .nil, ?_⟩⟩
  · obtain hother | hother := List.mem_append.1 hother
    · exact (h.solid other hother hp).mono (Nat.le_refl lo) hhi
    · obtain rfl := List.mem_singleton.1 hother
      exact (hitem hp).mono hlo (Nat.le_refl hi)
  · intro other hother last hlast hp hp'
    obtain rfl := List.mem_singleton.1 hlast
    exact Nat.le_trans (h.solid other hother hp).upper (hitem hp').lower

theorem Row.mono {lo mid hi : Nat} {items : List Items} (h : Row lo mid items) (hhi : mid ≤ hi) : Row lo hi items :=
  ⟨fun item hitem hp => (h.solid item hitem hp).mono (Nat.le_refl lo) hhi, h.ordered⟩

theorem Row.lower {lo mid hi : Nat} {items : List Items} (h : Row mid hi items) (hlo : lo ≤ mid) : Row lo hi items :=
  ⟨fun item hitem hp => (h.solid item hitem hp).mono hlo (Nat.le_refl hi), h.ordered⟩

instance Row.onward {strict : Bool} (items : List Items) (n : Onward strict hi) [h : Row lo hi items] :
    Row lo n.val items := h.mono n.le

theorem Row.sequence {items : List Items} {leading : Tree} {others : List Tree} (h : Row lo hi items)
    (hitems : ∀ item ∈ items, item.isParameter = false) (hall : items.map Items.tree = leading :: others) :
    (Tree.node .sequence leading.first (((items.map Items.tree).getLast?.map Tree.stop).getD leading.stop)
      (items.map Items.tree)).Solid lo hi := by
  have hsolid : ∀ t ∈ leading :: others, t.Solid lo hi := by
    rw [← hall]
    intro t ht
    obtain ⟨item, hitem, rfl⟩ := List.mem_map.1 ht
    exact h.solid item hitem (hitems item hitem)
  have hordered : (leading :: others).Pairwise fun a b => a.stop ≤ b.first := by
    rw [← hall]
    refine List.pairwise_map.2 (h.ordered.imp_of_mem fun ha hb hle => hle (hitems _ ha) (hitems _ hb))
  have hlast := List.getLast?_eq_some_getLast (List.cons_ne_nil leading others)
  rw [hall, hlast, Option.map_some, Option.getD_some]
  have hlower : ∀ t ∈ leading :: others, leading.first ≤ t.first := by
    intro t ht
    obtain rfl | ht := List.mem_cons.1 ht
    · exact Nat.le_refl _
    · exact Nat.le_trans (Nat.le_of_lt (hsolid leading (List.mem_cons_self ..)).filled)
        (List.rel_of_pairwise_cons hordered ht)
  have hupper : ∀ t ∈ leading :: others, t.stop ≤ ((leading :: others).getLast (by simp)).stop := by
    intro t ht
    rw [← List.dropLast_concat_getLast (List.cons_ne_nil leading others)] at ht hordered
    obtain ht | ht := List.mem_append.1 ht
    · have hle := (List.pairwise_append.1 hordered).2.2 t ht _ (List.mem_singleton_self _)
      exact Nat.le_trans hle (Nat.le_of_lt (hsolid _ (List.getLast_mem _)).filled)
    · exact Nat.le_of_eq (congrArg Tree.stop (List.mem_singleton.1 ht))
  have hleading := hsolid leading (List.mem_cons_self ..)
  refine ⟨hleading.lower, ?_, (hsolid _ (List.getLast_mem _)).upper, fun t ht => ?_⟩
  · exact Nat.lt_of_lt_of_le hleading.filled (hupper leading (List.mem_cons_self ..))
  · exact (hsolid t ht).tight.nested.mono (hlower t ht) (hupper t ht)

/-- The items read so far, the last one first, stand in a row. -/
def Rowed (lo : Nat) (found : List Items × Option Nat) (s : State) : Prop :=
  s.Regular ∧ lo ≤ s.count ∧ Row lo s.count found.1.reverse

theorem Rowed.read {α : Type} {lo : Nat} {found : List Items × Option Nat} {s t : State} (h : Rowed lo found s)
    {p : Clause α} {c : Context} {a : α} (hp : p.exec m.call m.limit c s = .read a t) : Rowed lo found t := by
  obtain ⟨hs, hlo, hrow⟩ := h
  have hproceed := m.proceeds_of_read hp
  have hle := hproceed.count_le hs
  exact ⟨hproceed.regular hs, Nat.le_trans hlo hle, hrow.mono hle⟩

theorem Rowed.item {lo : Nat} {found : List Items} {comma : Option Nat} {s t : State} (h : Rowed lo (found, comma) s)
    {c : Context} {item : Items} (hp : parenthesizedItem.exec m.call m.limit c s = .read item t) (comma' : Option Nat) :
    Rowed lo (item :: found, comma') t := by
  obtain ⟨hs, hlo, hrow⟩ := h
  have hproceed := m.proceeds_of_read hp
  have hle := hproceed.count_le hs
  refine ⟨hproceed.regular hs, Nat.le_trans hlo hle, ?_⟩
  rw [List.reverse_cons]
  exact hrow.append hlo hle (parenthesizedItem_solid hs hp)

theorem parenthesizedItems_row {c : Context} {s t : State} {items : List Items} {comma : Option Nat} (hs : s.Regular)
    (h : parenthesizedItems.exec m.call m.limit c s = .read (items, comma) t) : Row s.count t.count items := by
  obtain ⟨_, u, hu, h⟩ := Machine.exec_bind h
  obtain ⟨⟨found, last⟩, v, hv, h⟩ := Machine.exec_bind h
  obtain ⟨_, w, hw, h⟩ := Machine.exec_bind h
  cases h
  have hstart : Rowed s.count ([], none) s := ⟨hs, Nat.le_refl _, .nil _ _⟩
  have hrow : Rowed s.count (found, comma) v := by
    refine repeated_read (I := Rowed s.count) (Q := Rowed s.count) (fun {x w y t} hx hr => ?_) (hstart.read hu) hv
    obtain ⟨closed, w, hw, hr⟩ := Machine.exec_bind hr
    replace hx := hx.read hw
    cases closed
    · obtain ⟨item, w, hw, hr⟩ := Machine.exec_bind hr
      obtain ⟨closed, w', hw', hr⟩ := Machine.exec_bind hr
      replace hx := fun comma => (hx.item hw comma).read hw'
      cases closed
      · obtain ⟨number, w, hw, hr⟩ := Machine.exec_bind hr
        obtain ⟨_, w', hw', hr⟩ := Machine.exec_bind hr
        obtain ⟨closed, w'', hw'', hr⟩ := Machine.exec_bind hr
        replace hx := fun comma => (((hx comma).read hw).read hw').read hw''
        cases closed <;> cases hr <;> exact hx _
      · cases hr
        exact hx none
    · cases hr
      exact hx
  exact (hrow.read hw).2.2

instance : Moves m parenthesizedItems true := (takes_first (takes_of_moves _)).moves

instance nests_parenthesizedItems : Nests m .any lo hi next parenthesizedItems := by
  unfold parenthesizedItems
  dsimp only
  infer_instance

instance nests_lastParameter (comma : Option Nat) (item : Items) [h : AllTrees (Grade.any.Of lo hi) item] :
    Nests m .any lo hi next (lastParameter comma item) := by
  have htree := AllTrees.items_tree (P := Grade.any.Of lo hi) item
  unfold lastParameter
  dsimp only
  split
  · infer_instance
  · obtain ⟨hinner, -⟩ := AllTrees.cons_iff.1 (AllTrees.of_node htree)
    infer_instance
  · infer_instance

theorem nests_itemsAsParameters (comma : Option Nat) {items : List Items} (h : AllTrees (Grade.any.Of lo hi) items) :
    Nests m .any lo hi next (itemsAsParameters comma items) := by
  induction items generalizing hi next with
  | nil =>
      unfold itemsAsParameters
      infer_instance
  | cons item others ih =>
      obtain ⟨hitem, hothers⟩ := AllTrees.cons_iff.1 h
      have hlater (n : Onward false hi) : Nests m .any lo n.val none (itemsAsParameters comma others) :=
        ih inferInstance
      have := AllTrees.items_tree (P := Grade.any.Of lo hi) item
      cases others with
      | nil =>
          unfold itemsAsParameters
          infer_instance
      | cons next others =>
          unfold itemsAsParameters
          dsimp only
          infer_instance

instance (first : Nat) (async : Bool) (items : List Items) (comma : Option Nat) (result : List Tree) :
    Reads (arrowTail first async items comma result) .solid := ⟨⟩

instance nests_arrowTail (first : Nat) (async : Bool) (items : List Items) (comma : Option Nat) (result : List Tree)
    [Below first hi] [h : AllTrees (Grade.any.Of first hi) items] [AllTrees (Grade.any.Of first hi) result] :
    Nests m .solid first hi next (arrowTail first async items comma result) := by
  have : Nests m .any first hi next (itemsAsParameters comma items) := nests_itemsAsParameters comma h
  unfold arrowTail
  infer_instance

omit [m.Nesting] in
theorem checkNoParameter_read {items : List Items} {c : Context} {s t : State}
    (h : (checkNoParameter items).exec m.call m.limit c s = .read () t) : ∀ item ∈ items, item.isParameter = false := by
  unfold checkNoParameter at h
  split at h
  · cases h
  · rename_i hfind
    simpa using hfind

instance nests_parenthesized (first : Nat) (items : List Items) [Below first hi]
    [h : AllTrees (Grade.any.Of first hi) items] [hrow : Row first hi items] :
    Nests m .solid first hi next (parenthesized first items) := by
  unfold parenthesized
  dsimp only
  refine nests_next_of (k := .any) (Q := fun _ _ => ∀ item ∈ items, item.isParameter = false) inferInstance
    (fun c s _ t _ _ hr => checkNoParameter_read hr) fun n _ hitems => ?_
  have hall := AllTrees.map_tree (P := Grade.any.Of first n.val) items
  split
  · infer_instance
  · rename_i item hitem
    rw [hitem] at hall
    obtain ⟨hitem, -⟩ := AllTrees.cons_iff.1 hall
    infer_instance
  · rename_i hitems'
    have := AllTrees.tree_iff (P := Grade.solid.Of first n.val).2 ((hrow.mono n.le).sequence hitems hitems')
    infer_instance

instance (first : Nat) (async : Bool) (items : List Items) (comma : Option Nat) :
    Reads (conditionalArrow? first async items comma) .solid := ⟨⟩

instance nests_conditionalArrow? (first : Nat) (async : Bool) (items : List Items) (comma : Option Nat)
    [Below first hi] [h : AllTrees (Grade.any.Of first hi) items] :
    Nests m .solid first hi next (conditionalArrow? first async items comma) := by
  unfold conditionalArrow?
  infer_instance

instance nests_arrowResult? : Nests m .any lo hi next arrowResult? := by
  unfold arrowResult?
  infer_instance

instance nests_parenthesizedArrow (first : Nat) (async : Bool) (items : List Items) (comma : Option Nat)
    (result : List Tree) [Below first hi] [h : AllTrees (Grade.any.Of first hi) items]
    [AllTrees (Grade.any.Of first hi) result] :
    Nests m .solid first hi next (parenthesizedArrow first async items comma result) := by
  unfold parenthesizedArrow
  dsimp only
  infer_instance

instance nests_parenthesizedOrCall (first : Nat) (async : Bool) (items : List Items) [Below first hi]
    [h : AllTrees (Grade.any.Of first hi) items] [hrow : Row first hi items] :
    Nests m .solid first hi next (parenthesizedOrCall first async items) := by
  unfold parenthesizedOrCall
  dsimp only
  infer_instance

/-- What follows the items between parentheses may rely on their order. -/
theorem nests_items {first : Nat} [hfirst : AtMost first hi] {change : Context → Context}
    {f : List Items × Option Nat → Clause Tree}
    (hf : ∀ (n : Onward true hi) (items : List Items) (comma : Option Nat) [AllTrees (Grade.any.Of first n.val) items]
      [Row first n.val items], Nests m .solid first n.val none (f (items, comma))) :
    Nests m .solid first hi next (.within change parenthesizedItems >>= f) := by
  refine nests_next_of (k := .any) (Q := fun p n => Row hi n p.1) inferInstance
    (fun c s p t hs hcount hr => hcount ▸ parenthesizedItems_row hs hr) fun n ⟨⟨items, comma⟩, hitems⟩ hrow => ?_
  have : AllTrees (Grade.any.Of first n.val) items := AllTrees.fst (items, comma)
  have : Row first n.val items := hrow.lower hfirst.le
  exact hf n items comma

instance nests_parenthesizedOrArrow (arrowAllowed : Bool) :
    Nests m .solid lo hi next (parenthesizedOrArrow arrowAllowed none) := by
  unfold parenthesizedOrArrow
  dsimp only [Option.getD]
  refine nests_here (k := .solid) (nests_mark _ (h := nests_items fun n items comma => ?_))
  infer_instance

/-- What `async` begins with a parenthesis after it begins with that word. -/
instance nests_asyncOrArrow (first : Nat) (arrowAllowed : Bool) [Below first hi] :
    Nests m .solid first hi next (parenthesizedOrArrow arrowAllowed (some first)) := by
  unfold parenthesizedOrArrow
  dsimp only [Option.getD]
  refine nests_mark _ (h := nests_items fun n items comma => ?_)
  infer_instance

instance nests_nameOrArrow (first : Nat) (arrowAllowed : Bool) [AtMost first hi] :
    Nests m .solid first hi next (nameOrArrow first arrowAllowed) := by
  unfold nameOrArrow
  dsimp only
  infer_instance

instance moves_template (tagged : Bool) : Moves m (template tagged) true :=
  (takes_later fun _ => takes_later fun _ => takes_later fun _ => takes_first (takes_of_moves _)).moves

/-- A string starts at the token whose number it has. -/
instance nests_stringNode : Nests m .solid hi hi next (stringToken >>= fun number => node .string number []) := by
  refine nests_next_of (k := .any) (Q := fun number _ => number = hi) inferInstance
    (fun c s number t _ hcount hr => (stringToken_read hr).1.trans hcount) fun n ⟨number, hn⟩ hnumber => ?_
  obtain rfl : number = hi := hnumber
  infer_instance

instance : Reads primary .solid := ⟨⟩

instance nests_primary [g.Weaker .solid] : Nests m g lo hi next primary := by
  unfold primary
  dsimp only
  refine nests_here (k := .solid) (nests_mark _ (h := nests_peek _ _ (h := fun notes => nests_current fun token => ?_)))
  split <;> infer_instance

instance (first : Nat) (callee : Callee) (generics : List Tree) : Reads (call first callee generics) .solid := ⟨⟩

instance moves_primary : Moves m primary true := moves_of_solid fun _ => inferInstance

instance nests_call (first : Nat) (callee : Callee) (generics : List Tree) [Below first hi]
    [h : AllTrees (Grade.solid.Of first hi) callee] [AllTrees (Grade.any.Of first hi) generics] :
    Nests m .solid first hi next (call first callee generics) := by
  unfold call callNode
  refine h.callee_cases (fun tree _ => ?_) ?_ ?_ <;> infer_instance

instance (first : Nat) (tag : Tree) (generics : List Tree) : Reads (taggedTemplate first tag generics) .solid := ⟨⟩

instance nests_taggedTemplate (first : Nat) (tag : Tree) (generics : List Tree) [Below first hi]
    [AllTrees (Grade.any.Of first hi) tag] [AllTrees (Grade.any.Of first hi) generics] :
    Nests m .solid first hi next (taggedTemplate first tag generics) := by
  unfold taggedTemplate
  dsimp only
  infer_instance

instance (first : Nat) : Reads (genericAsyncArrow? first) .solid := ⟨⟩

instance nests_genericAsyncArrow? (first : Nat) [Below first hi] :
    Nests m .solid first hi next (genericAsyncArrow? first) := by
  unfold genericAsyncArrow?
  refine nests_next (k := .any) inferInstance fun n head => ?_
  split
  · infer_instance
  · rename_i parameters types hhead
    have := AllTrees.of_eq_some (P := Grade.any.Of first n.val) hhead
    have : AllTrees (Grade.any.Of first n.val) parameters := AllTrees.fst (parameters, types)
    have : AllTrees (Grade.any.Of first n.val) types := AllTrees.snd (parameters, types)
    infer_instance

instance nests_asyncArrow? (first : Nat) (callee : Callee) (noCall : Bool) [Below first hi] :
    Nests m .solid first hi next (asyncArrow? first callee noCall) := by
  unfold asyncArrow?
  dsimp only
  refine nests_peek _ _ (h := fun noted => nests_peek _ _ (h := fun ended => ?_))
  split
  · refine nests_next (k := .solid) inferInstance fun n arrow => ?_
    split
    · have := AllTrees.of_eq_some (P := Grade.solid.Of first n.val) ‹_ = some _›
      infer_instance
    · infer_instance
  · infer_instance

instance (first : Nat) (callee : Callee) (noCall : Bool) : Reads (genericLink first callee noCall) .solid := ⟨⟩

instance nests_genericLink (first : Nat) (callee : Callee) (noCall : Bool) [Below first hi]
    [h : AllTrees (Grade.solid.Of first hi) callee] : Nests m .solid first hi next (genericLink first callee noCall) := by
  unfold genericLink
  refine h.callee_cases (fun tree _ => ?_) ?_ ?_ <;> infer_instance

instance nests_genericSubscript? (first : Nat) (callee : Callee) (noCall : Bool) [Below first hi]
    [AllTrees (Grade.solid.Of first hi) callee] :
    Nests m .solid first hi next (genericSubscript? first callee noCall) := by
  unfold genericSubscript?
  infer_instance

instance (first : Nat) (callee : Callee) (optional : Bool) (index : List Tree) :
    Reads (memberNode first callee optional index) .solid := ⟨⟩

instance nests_memberNode (first : Nat) (callee : Callee) (optional : Bool) (index : List Tree) [Below first hi]
    [h : AllTrees (Grade.solid.Of first hi) callee] [AllTrees (Grade.any.Of first hi) index] :
    Nests m .solid first hi next (memberNode first callee optional index) := by
  unfold memberNode
  dsimp only
  refine h.callee_cases (fun tree _ => ?_) ?_ ?_ <;> infer_instance

instance (first : Nat) (callee : Callee) : Reads (nonNull first callee) .solid := ⟨⟩

instance nests_nonNull (first : Nat) (callee : Callee) [Below first hi]
    [h : AllTrees (Grade.solid.Of first hi) callee] : Nests m .solid first hi next (nonNull first callee) := by
  unfold nonNull
  refine h.callee_cases (fun tree _ => ?_) ?_ ?_ <;> infer_instance

instance (first : Nat) (callee : Callee) (optional : Bool) : Reads (callLink first callee optional) .solid := ⟨⟩

instance nests_callLink (first : Nat) (callee : Callee) (optional : Bool) [Below first hi]
    [h : AllTrees (Grade.solid.Of first hi) callee] : Nests m .solid first hi next (callLink first callee optional) := by
  unfold callLink
  dsimp only
  refine h.callee_cases (fun tree _ => ?_) ?_ ?_ <;> infer_instance

instance (first : Nat) (callee : Callee) (optional : Bool) : Reads (memberLink first callee optional) .solid := ⟨⟩

instance nests_memberLink (first : Nat) (callee : Callee) (optional : Bool) [Below first hi]
    [h : AllTrees (Grade.solid.Of first hi) callee] :
    Nests m .solid first hi next (memberLink first callee optional) := by
  unfold memberLink
  dsimp only
  cases callee <;> infer_instance

instance nests_templateLink (first : Nat) (callee : Callee) (noCall : Bool) [Below first hi]
    [h : AllTrees (Grade.solid.Of first hi) callee] :
    Nests m .solid first hi next (templateLink first callee noCall) := by
  unfold templateLink
  refine h.callee_cases (fun tree _ => ?_) ?_ ?_ <;> infer_instance

instance nests_plainSubscript (first : Nat) (callee : Callee) (noCall noIndex : Bool) [Below first hi]
    [AllTrees (Grade.solid.Of first hi) callee] :
    Nests m .solid first hi next (plainSubscript first callee noCall noIndex) := by
  unfold plainSubscript
  dsimp only
  infer_instance

instance (first : Nat) (callee : Callee) (noCall noIndex : Bool) :
    Reads (subscript first callee noCall noIndex) .solid := ⟨⟩

instance nests_subscript (first : Nat) (callee : Callee) (noCall noIndex : Bool) [Below first hi]
    [AllTrees (Grade.solid.Of first hi) callee] :
    Nests m .solid first hi next (subscript first callee noCall noIndex) := by
  unfold subscript
  infer_instance

instance nests_subscripts (first : Nat) (callee : Callee) (noCall noIndex : Bool) [Below first hi]
    [AllTrees (Grade.solid.Of first hi) callee] :
    Nests m .solid first hi next (subscripts first callee noCall noIndex) := by
  unfold subscripts
  infer_instance

instance nests_importTail (first : Nat) (noCall : Bool) [Below first hi] :
    Nests m .solid first hi next (importTail first noCall) := by
  unfold importTail
  dsimp only
  infer_instance

instance (isNew : Bool) : Reads (memberOrNew isNew) .solid := ⟨⟩

instance nests_memberOrNew (isNew : Bool) [g.Weaker .solid] : Nests m g lo hi next (memberOrNew isNew) := by
  unfold memberOrNew
  dsimp only
  refine nests_here (k := .solid) (nests_mark _ (h := ?_))
  infer_instance

instance moves_memberOrNew (isNew : Bool) : Moves m (memberOrNew isNew) true := moves_of_solid fun _ => inferInstance

instance nests_leftHandSide [g.Weaker .solid] : Nests m g lo hi next leftHandSide := by
  unfold leftHandSide
  dsimp only
  refine nests_here (k := .solid) (nests_mark _ (h := ?_))
  infer_instance

instance : Reads awaited .solid := ⟨⟩

instance nests_awaited (token : Token) [token.Live] [g.Weaker .solid] : Nests m g lo hi (some token) awaited := by
  unfold awaited
  dsimp only
  refine nests_here (k := .solid) ?_
  infer_instance

/-- An operator, or the word `await`, takes a token of its own even where its operand is missing. -/
instance nests_unary [g.Weaker .solid] : Nests m g lo hi next unary := by
  unfold unary
  dsimp only
  refine nests_here (k := .solid) (nests_mark _ (h := nests_eat _ _ (h := fun n => ?_) (e := nests_ite_false _ _ (h := ?_))))
  · infer_instance
  refine nests_ask fun token => ?_
  split
  · infer_instance
  refine nests_known (nests_known (nests_known (nests_known ?_)))
  split
  · rename_i hoperator
    have : token.Live := ⟨by rintro rfl; simp [Token.isOneOf] at hoperator⟩
    infer_instance
  · refine nests_known ?_
    split
    · rename_i hawait
      have : token.Live := ⟨by rintro rfl; simp at hawait⟩
      infer_instance
    · infer_instance

instance nests_castType : Nests m .any lo hi next castType := by
  unfold castType
  dsimp only
  infer_instance

instance (left : Tree) (operator : Operator) (precedence : Nat) : Reads (operation left operator precedence) .solid := ⟨⟩

/-- The operand after an operator starts after what stands before it, which the operator may be part of. -/
theorem nests_operation_from (left : Tree) (operator : Operator) (precedence : Nat) (hfirst : left.first ≤ hi)
    (h : AllTrees (Grade.any.Of left.first (hi + 1)) left) :
    Nests m .solid left.first hi next (operation left operator precedence) := by
  have hoperands (n : Onward false hi) : Nests m .solid left.first n.val none (do
      let operand ← rule .unary
      let right ← rule (.binaryTail operand (if operator == .power then precedence - 1 else precedence))
      checkMixed operator left right
      return Tree.node (.binary operator) left.first right.stop [left, right]) := by
    refine nests_from (l := n.val) (k := .solid) inferInstance fun n' operand => ?_
    refine nests_from (l := n.val) (k := .solid) inferInstance fun n'' right => ?_
    have hright := AllTrees.tree_iff.1 right.fit
    have hlt : n.val < right.val.stop := Nat.lt_of_le_of_lt hright.lower hright.filled
    have : Below left.first right.val.stop := ⟨Nat.lt_of_le_of_lt (Nat.le_trans hfirst n.le) hlt⟩
    have : AtMost right.val.stop n''.val := ⟨hright.upper⟩
    have : AllTrees (Grade.any.Of left.first right.val.stop) left :=
      h.weaken (Nat.le_refl _) (Nat.succ_le_of_lt (Nat.lt_of_le_of_lt n.le hlt))
    have : AllTrees (Grade.any.Of left.first right.val.stop) right.val :=
      AllTrees.tree_iff.2 (hright.tight.nested.mono (Nat.le_trans hfirst (Nat.le_trans n.le hright.lower)) (Nat.le_refl _))
    infer_instance
  unfold operation
  dsimp only
  infer_instance

instance nests_operation (left : Tree) (operator : Operator) (precedence : Nat) [hfirst : AtMost left.first hi]
    [h : AllTrees (Grade.any.Of left.first hi) left] :
    Nests m .solid left.first hi next (operation left operator precedence) :=
  nests_operation_from left operator precedence hfirst.le (h.weaken (Nat.le_refl _) (Nat.le_succ hi))

instance (left : Tree) (least : Nat) : Reads (binaryStep left least) .solid := ⟨⟩

instance nests_binaryStep (left : Tree) (least : Nat) [h : AllTrees (Grade.solid.Of lo hi) left] :
    Nests m .solid lo hi next (binaryStep left least) := by
  have hleft := AllTrees.tree_iff.1 h
  have : AtMost lo left.first := ⟨hleft.lower⟩
  have : Below left.first hi := ⟨Nat.lt_of_lt_of_le hleft.filled hleft.upper⟩
  have : AllTrees (Grade.solid.Of left.first hi) left :=
    AllTrees.tree_iff.2 (hleft.tight.mono (Nat.le_refl _) hleft.upper)
  unfold binaryStep
  dsimp only
  refine Nests.weaken (l := left.first) (k := .solid) ?_
  refine nests_peek _ _ (h := fun ended => nests_peek _ _ (h := fun isAs => ?_))
  split
  · infer_instance
  · refine nests_peek _ _ (h := fun ended => nests_peek _ _ (h := fun isSatisfies => ?_))
    split
    · infer_instance
    · refine nests_then fun n found => ?_
      split <;> infer_instance

instance nests_binaryTail (left : Tree) (least : Nat) [h : AllTrees (Grade.solid.Of lo hi) left] [g.Weaker .solid] :
    Nests m g lo hi next (binaryTail left least) := by
  have hleft := AllTrees.tree_iff.1 h
  have : AtMost lo hi := ⟨Nat.le_trans hleft.lower (Nat.le_trans (Nat.le_of_lt hleft.filled) hleft.upper)⟩
  unfold binaryTail
  refine Nests.weaken (l := lo) (k := .solid) ?_
  infer_instance

/-! An operand that could not be read -/

section Joined

variable {number : Nat} {c : Context} {s t : State}

/-- The operator that stands for the operand before it. -/
def standIn (number : Nat) : Tree := .node .invalid number (number + 1) []

/-- The token with the given number comes next and joins two operands. -/
structure Joined (number : Nat) (c : Context) (s : State) : Prop where
  joins : Joins c s
  regular : s.Regular
  count_eq : s.count = number

theorem precedence_pos {sign : Sign} {precedence : Nat} (h : sign.precedence? = some precedence) : 0 < precedence := by
  cases sign <;> simp_all [Sign.precedence?] <;> omega

omit [m.Nesting] in
theorem current_read {token : Token} (h : current.exec m.call m.limit c s = .read token t) :
    token = (s.look c).1.token ∧ t = (s.look c).2 := by
  simp only [Clause.exec, Outcome.read.injEq] at h
  exact ⟨h.1.symm, h.2.symm⟩

theorem Joined.peek {α : Type} {p : Clause α} [hp : Peeks p] {a : α} (h : Joined number c s)
    (hr : p.exec m.call m.limit c s = .read a t) : Joined number c t := by
  obtain ⟨token, hnext, htoken⟩ := h.joins
  obtain ⟨hcount, hnext'⟩ := hp.peeks m c s a t hr
  exact ⟨⟨token, hnext' _ hnext, htoken⟩, (m.proceeds_of_read hr).regular h.regular, hcount.trans h.count_eq⟩

omit [m.Nesting] in
/-- What joins two operands is no word that a type follows. -/
theorem Joined.isWord {w : String} (h : Joined number c s) (hw : w = "as" ∨ w = "satisfies") {found : Bool}
    (hr : (isWord w).exec m.call m.limit c s = .read found t) : found = false := by
  obtain ⟨token, hnext, htoken⟩ := h.joins
  simp only [Asks.asks, look_token c hnext, Outcome.read.injEq] at hr
  rw [← hr.1]
  obtain rfl | rfl := hw <;> obtain rfl | ⟨rfl, -⟩ | ⟨sign, rfl, -⟩ := htoken <;> rfl

theorem Joined.operator? (h : Joined number c s) {found : Option (Operator × Nat)}
    (hr : Clause.operator?.exec m.call m.limit c s = .read found t) :
    Joined number c t ∧ ∃ operator precedence, found = some (operator, precedence) ∧ 0 < precedence := by
  obtain ⟨token, u, hu, hr⟩ := Machine.exec_bind hr
  have hnext := h.peek hu
  obtain ⟨rfl, rfl⟩ := current_read hu
  obtain ⟨token, htoken, hjoins⟩ := h.joins
  rw [look_token c htoken] at hr
  obtain rfl | ⟨rfl, hin⟩ | ⟨sign, rfl, hbinary⟩ := hjoins
  · cases hr
    exact ⟨hnext, .other, 7, rfl, by decide⟩
  · obtain ⟨_, v, hv, hr⟩ := Machine.exec_bind hr
    cases hv
    rw [if_pos hin] at hr
    cases hr
    exact ⟨hnext, .other, 7, rfl, by decide⟩
  · obtain ⟨precedence, hprecedence⟩ := Option.isSome_iff_exists.1 hbinary
    simp only [hprecedence] at hr
    cases hr
    exact ⟨hnext, _, precedence, rfl, precedence_pos hprecedence⟩

/-- Where an operator stands for the operand before it, the first step is an operation. -/
theorem Joined.binaryStep (h : Joined number c s) {tree : Tree} {more : Bool}
    (hr : (Clause.binaryStep (standIn number) 0).exec m.call m.limit c s = .read (tree, more) t) :
    more = true ∧ tree.Solid number t.count := by
  obtain ⟨ended, u, hu, hr⟩ := Machine.exec_bind hr
  replace h := h.peek hu
  obtain ⟨isAs, v, hv, hr⟩ := Machine.exec_bind hr
  obtain rfl := h.isWord (.inl rfl) hv
  replace h := h.peek hv
  rw [Bool.and_false, if_neg Bool.false_ne_true] at hr
  obtain ⟨ended', w, hw, hr⟩ := Machine.exec_bind hr
  replace h := h.peek hw
  obtain ⟨isSatisfies, x, hx, hr⟩ := Machine.exec_bind hr
  obtain rfl := h.isWord (.inr rfl) hx
  replace h := h.peek hx
  rw [Bool.and_false, if_neg Bool.false_ne_true] at hr
  obtain ⟨found, y, hy, hr⟩ := Machine.exec_bind hr
  obtain ⟨h, operator, precedence, rfl, hpositive⟩ := h.operator? hy
  dsimp only at hr
  rw [if_neg (Nat.not_le_of_lt hpositive)] at hr
  obtain ⟨operated, z, hz, hr⟩ := Machine.exec_bind hr
  cases hr
  have hleft : AllTrees (Grade.any.Of number (number + 1)) (standIn number) :=
    AllTrees.solidNode .invalid number (number + 1) []
  have hnests : Nests m .solid number number none (operation (standIn number) operator precedence) :=
    nests_operation_from (standIn number) operator precedence (Nat.le_refl _) hleft
  exact ⟨rfl, AllTrees.tree_iff.1 (hnests.nests c y tree t h.regular h.count_eq y.next_none (Nat.le_refl _) hz)⟩

/-- The operator that stands for an operand gives way to the operation, and that to others. -/
theorem Joined.binaryTail (h : Joined number c s) {tree : Tree}
    (hr : (Clause.binaryTail (standIn number) 0).exec m.call m.limit c s = .read tree t) :
    tree.Solid number t.count := by
  let I (x : Tree) (u : State) : Prop := u.Regular ∧ number ≤ u.count ∧
    (x = standIn number ∧ Joined number c u ∨ x.Solid number u.count)
  refine repeated_read (I := I) (Q := fun x u => x.Solid number u.count) (fun {x u y v} hx hr => ?_)
    ⟨h.regular, Nat.le_of_eq h.count_eq.symm, .inl ⟨rfl, h⟩⟩ hr
  obtain ⟨hu, hle, hx⟩ := hx
  obtain ⟨⟨left, more⟩, w, hw, hr⟩ := Machine.exec_bind hr
  have hproceed := m.proceeds_of_read hw
  have hregular := hproceed.regular hu
  have hle' := Nat.le_trans hle (hproceed.count_le hu)
  obtain ⟨rfl, hjoined⟩ | hx := hx
  · obtain ⟨rfl, hleft⟩ := hjoined.binaryStep hw
    cases hr
    exact ⟨hregular, hle', .inr hleft⟩
  · have : AllTrees (Grade.solid.Of number u.count) x := AllTrees.tree_iff.2 hx
    have hleft := (nests_binaryStep x 0).nests c u (left, more) w hu rfl u.next_none hle hw
    have hsolid := AllTrees.tree_iff.1 (AllTrees.prod_iff.1 hleft).1
    cases more with
    | true =>
        cases hr
        exact ⟨hregular, hle', .inr hsolid⟩
    | false =>
        cases hr
        exact hsolid

theorem missingOperand?_read (hs : s.Regular) {tree : Tree}
    (h : missingOperand?.exec m.call m.limit c s = .read (some tree) t) :
    tree = standIn t.count ∧ Joins c t ∧ t.count = s.count ∧ t.Regular := by
  obtain ⟨_, _, hmark, h⟩ := Machine.exec_bind h
  cases hmark
  obtain ⟨token, u, hu, h⟩ := Machine.exec_bind h
  have hregular := (m.proceeds_of_read hu).regular hs
  obtain ⟨rfl, rfl, -⟩ := need_read hu
  have hcount := (look_eq c s).2
  have hnext := next_look c s
  generalize (s.look c).1.token = token at h hnext
  split at h
  · obtain ⟨_, v, hv, h⟩ := Machine.exec_bind h
    cases hv
    split at h
    · rename_i hin
      cases h
      exact ⟨by rw [hcount]; rfl, ⟨_, hnext, .inr (.inl ⟨rfl, hin⟩)⟩, hcount, hregular⟩
    · cases h
  · cases h
    exact ⟨by rw [hcount]; rfl, ⟨_, hnext, .inl rfl⟩, hcount, hregular⟩
  · split at h
    · rename_i sign hbinary
      cases h
      exact ⟨by rw [hcount]; rfl, ⟨_, hnext, .inr (.inr ⟨sign, rfl, hbinary⟩)⟩, hcount, hregular⟩
    · cases h
  · cases h

end Joined

/-- An operand that could not be read may have taken no token, and then an operator does. -/
instance nests_binary [g.Weaker .solid] : Nests m g lo hi next binary := by
  refine nests_here (k := .solid) ⟨fun c s a t hs hcount hnext hlo hr => ?_⟩
  obtain ⟨left, u, hu, hr⟩ := Machine.exec_bind hr
  have hregular := (m.proceeds_of_read hu).regular hs
  have hle := (m.proceeds_of_read hu).count_le hs
  simp only [Clause.exec] at hu
  split at hu
  · rename_i hunary
    cases hu
    have := (nests_rule_unary m .solid hi hi next).nests c s left u hs hcount hnext hlo hunary
    have htail : Nests m .solid hi u.count none (if left.isArrow then return left else rule (.binaryTail left 0)) :=
      inferInstance
    exact htail.nests c u a t hregular rfl u.next_none (hcount ▸ hle) hr
  · rename_i fault v hv
    have hproceed : Proceeds s v := by simpa [hv] using Machine.Nesting.proceeds (m := m) Rule.unary c s
    split at hu
    · rename_i w hw
      cases hu
      obtain ⟨rfl, ⟨token, htoken, hjoins⟩, -, -⟩ := missingOperand?_read (hproceed.regular hs) hw
      obtain ⟨noted, hnoted⟩ := complain_eq c.silent [fault] w
      have hjoins' : Joins c (w.complain c.silent [fault]) := ⟨token, by rw [hnoted]; exact htoken, hjoins⟩
      have hcount' : (w.complain c.silent [fault]).count = w.count := by rw [hnoted]
      replace hr : m.call (.binaryTail (standIn w.count) 0) c _ = .read a t := hr
      rw [← hcount'] at hr
      rw [← hcount]
      exact AllTrees.tree_iff.2
        ((Machine.Nesting.joined c _ a t hregular hjoins' hr).mono hle (Nat.le_refl _))
    · cases hu
    · cases hu

instance moves_binary : Moves m binary true := moves_of_solid fun _ => inferInstance
instance moves_unary : Moves m unary true := moves_of_solid fun _ => inferInstance
instance moves_leftHandSide : Moves m leftHandSide true := moves_of_solid fun _ => inferInstance
instance moves_expressionBody : Moves m expressionBody true := moves_of_solid fun _ => inferInstance
instance moves_object : Moves m object true := moves_of_solid fun _ => inferInstance
instance moves_arguments : Moves m arguments true := by
  unfold arguments
  exact moves_within _ _ (h := (takes_first (takes_of_moves _)).moves)

instance nests_genericArrow? : Nests m .solid lo hi next genericArrow? := by
  have harrow (n : Onward false hi) (generics : Tree) [AllTrees (Grade.any.Of hi n.val) generics] :
      Nests m .solid hi n.val none (do
        let arrow ← assignment
        if arrow.isArrow then return some (Tree.node .arrow hi arrow.stop (arrow.children ++ [generics]))
        else do
          unexpected "("
          return some (Tree.node .arrow hi arrow.stop (arrow.children ++ [generics]))) := by
    refine nests_from (l := n.val) (k := .solid) inferInstance fun n' arrow => ?_
    obtain ⟨lower, filled, upper, inside⟩ := AllTrees.tree_iff.1 arrow.fit
    have hlt : n.val < arrow.val.stop := Nat.lt_of_le_of_lt lower filled
    have : Below hi arrow.val.stop := ⟨Nat.lt_of_le_of_lt n.le hlt⟩
    have : AtMost arrow.val.stop n'.val := ⟨upper⟩
    have : AllTrees (Grade.any.Of hi arrow.val.stop) arrow.val.children :=
      AllTrees.list_iff.2 fun t ht =>
        AllTrees.tree_iff.2 ((inside t ht).mono (Nat.le_trans n.le lower) (Nat.le_refl _))
    have : AllTrees (Grade.any.Of hi arrow.val.stop) generics :=
      AllTrees.weaken (k := .any) inferInstance (Nat.le_refl hi) (Nat.le_of_lt hlt)
    infer_instance
  unfold genericArrow?
  dsimp only
  refine nests_here (k := .solid) ?_
  infer_instance

instance nests_yielded (token : Token) [token.Live] : Nests m .solid lo hi (some token) yielded := by
  unfold yielded
  refine nests_here (k := .solid) ?_
  infer_instance

instance nests_plainAssignment : Nests m .solid lo hi next plainAssignment := by
  unfold plainAssignment
  refine nests_here (k := .solid) (nests_peek _ _ (h := fun surroundings => nests_ask fun token => ?_))
  split
  · rename_i hyield
    have : token.Live := ⟨by rintro rfl; simp at hyield⟩
    infer_instance
  refine nests_mark _ (h := nests_then fun n mayStart => nests_then fun n' _ => ?_)
  refine nests_next (k := .solid) inferInstance fun n'' test => ?_
  split
  · infer_instance
  refine nests_decide (h := inferInstance) (e := nests_ite_false _ _ (h := ?_))
  split <;> infer_instance

instance nests_assignmentBody [g.Weaker .solid] : Nests m g lo hi next assignmentBody := by
  unfold assignmentBody
  refine nests_here (k := .solid) ?_
  infer_instance

instance moves_assignmentBody : Moves m assignmentBody true := moves_of_solid fun _ => inferInstance

end WebModules.Script
