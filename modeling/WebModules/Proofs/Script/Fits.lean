import WebModules.Proofs.Script.Sound

/-!
The rules by which a clause of the grammar is shown to yield sound trees: one for each way in which
clauses are put together, and one for each named rule of the grammar.  They are instances, so that
a clause without cases is shown to fit from what it is made of.
-/

namespace WebModules.Script

/-- What reads the named rules of the grammar, and how often a step may be repeated. -/
structure Machine where
  call : {α : Type} → Rule α → Context → State → Outcome α
  limit : Nat

/-- The trees in what a rule yields. -/
def Rule.trees : {α : Type} → Rule α → α → List Tree
  | _, .arguments, ts | _, .parameters, ts => ts
  | _, .expression, t | _, .assignment, t | _, .binary, t | _, .binaryTail _ _, t | _, .unary, t
  | _, .leftHandSide, t | _, .memberOrNew _, t | _, .subscripts _ _ _ _, t | _, .object, t
  | _, .asPattern _ _ _, t | _, .bindingTarget, t | _, .function _ _ _, t
  | _, .namedFunction _ _ _, t | _, .classTail _ _, t | _, .body _ _, t | _, .arrowBody _ _, t
  | _, .block, t | _, .type, t | _, .plainType, t | _, .typeOperator, t | _, .importType, t
  | _, .typeArguments, t | _, .typeParameters, t | _, .result _, t | _, .statement _ _, t
  | _, .moduleBlock, t | _, .namespaceTail _, t => [t]

/-- No string that matters stands before the given token. -/
class Extent.From (e : Extent) (first : Nat) : Prop where
  le : first ≤ e.least

instance (tokens : List Lexeme) (n : Nat) : Extent.From ⟨tokens, n⟩ n := ⟨Nat.le_refl n⟩

/-- What a rule may be called with: sound trees, and for the links after an expression a first token
that none of the strings they read stands before. -/
def Extent.Admits (e : Extent) {α : Type} : Rule α → Prop
  | .binaryTail left _ => e.Fit left
  | .subscripts first callee _ _ => e.From first ∧ e.Fit callee
  | .asPattern _ _ tree => e.Fit tree
  | _ => True

/-- A clause, read from the least token of the extent on or later, yields only sound trees. -/
class Fits (m : Machine) (e : Extent) {α : Type} [Holds α] (p : Clause α) : Prop where
  fit : ∀ c s a t, s.count = s.taken.length → e.least ≤ s.count →
    p.exec m.call m.limit c s = .read a t → t.taken.reverse <+: e.tokens → e.Fit a

/-- Rules only take tokens, and yield sound trees where they are admitted. -/
class Machine.Sound (m : Machine) : Prop where
  advances : ∀ {α : Type} (rule : Rule α) c s, Advances s (m.call rule c s).state
  sound : ∀ {α : Type} (rule : Rule α) (e : Extent), e.Admits rule → ∀ c s a t,
    s.count = s.taken.length → e.least ≤ s.count → m.call rule c s = .read a t →
    t.taken.reverse <+: e.tokens → ∀ tree ∈ rule.trees a, e.Sound tree

section Rules

variable {m : Machine} {e : Extent} {α β σ : Type}

theorem Machine.exec_bind {p : Clause α} {f : α → Clause β} {c : Context} {s t : State} {b : β}
    (h : (p >>= f).exec m.call m.limit c s = .read b t) :
    ∃ a u, p.exec m.call m.limit c s = .read a u ∧ (f a).exec m.call m.limit c u = .read b t := by
  simp only [Bind.bind, Clause.exec] at h
  split at h
  · rename_i a u hu
    exact ⟨a, u, hu, h⟩
  · cases h

section Advance

variable [m.Sound]

theorem Machine.exec_advances (p : Clause α) (c : Context) (s : State) :
    Advances s (p.exec m.call m.limit c s).state :=
  advances_respected.exec Machine.Sound.advances p c s

theorem Machine.advances_of_read {p : Clause α} {c : Context} {s t : State} {a : α}
    (h : p.exec m.call m.limit c s = .read a t) : Advances s t := by
  simpa [h] using m.exec_advances p c s

end Advance

variable [Holds α] [Holds β] [Holds σ]

instance (priority := low) fits_treeless [Treeless α] (p : Clause α) : Fits m e p :=
  ⟨fun _ _ _ _ _ _ _ _ => inferInstance⟩

instance fits_pure (a : α) [h : e.Fit a] : Fits m e (pure a : Clause α) := by
  refine ⟨fun c s b t _ _ hr _ => ?_⟩
  cases hr
  exact h

instance fits_value (a : α) [e.Fit a] : Fits m e (Clause.pure a) := fits_pure a

instance fits_fail (place : Place) (complaint : Complaint) :
    Fits m e (.fail place complaint : Clause α) :=
  ⟨fun _ _ _ _ _ _ hr _ => by simp [Clause.exec] at hr⟩

instance fits_unexpected (wanted : String) : Fits m e (Clause.unexpected wanted : Clause α) :=
  fits_fail _ _

instance fits_ite (p : Prop) [Decidable p] (a b : Clause α) [ha : Fits m e a] [hb : Fits m e b] :
    Fits m e (if p then a else b) := by
  split
  · exact ha
  · exact hb

instance fits_within (change : Context → Context) (p : Clause α) [h : Fits m e p] :
    Fits m e (.within change p) :=
  ⟨fun c s a t hs hl hr ht => h.fit (change c) s a t hs hl hr ht⟩

instance fits_withIn (allowed : Bool) (p : Clause α) [Fits m e p] :
    Fits m e (p.withIn allowed) := fits_within _ p

instance fits_inType (p : Clause α) [Fits m e p] : Fits m e p.inType := fits_within _ p

theorem fits_mark {f : Nat → Clause Tree} (h : ∀ n, e.least ≤ n → Fits m ⟨e.tokens, n⟩ (f n)) :
    Fits m e (Clause.mark >>= f) := by
  refine ⟨fun c s a t hs hl hr ht => ?_⟩
  have ha := (h s.count hl).fit c s a t hs (Nat.le_refl _) hr ht
  exact AllTrees.tree_iff.2 ((AllTrees.tree_iff.1 ha).of_le hl)

variable [m.Sound]

/-- What comes after a clause may rely on the trees that the clause has yielded. -/
theorem fits_next {p : Clause α} {f : α → Clause β} [h : Fits m e p]
    (hf : ∀ a : e.Fitted α, Fits m e (f a.val)) : Fits m e (p >>= f) := by
  refine ⟨fun c s b t hs hl hr ht => ?_⟩
  obtain ⟨a, u, hu, hr⟩ := Machine.exec_bind hr
  have hp := m.advances_of_read hu
  have hq := m.advances_of_read hr
  have ha := h.fit c s a u hs hl hu ((List.reverse_prefix.2 hq.taken).trans ht)
  exact (hf ⟨a, ha⟩).fit c u b t (hp.count hs) (Nat.le_trans hl (hp.count_le hs)) hr ht

instance fits_bind (p : Clause α) (f : α → Clause β) [Fits m e p]
    [hf : ∀ a : e.Fitted α, Fits m e (f a.val)] : Fits m e (p >>= f) := fits_next hf

instance fits_rescued (p : Clause α) (rescue : Clause (Option α)) [hp : Fits m e p]
    [hr : Fits m e rescue] : Fits m e (.rescued p rescue) := by
  refine ⟨fun c s a t hs hl h ht => ?_⟩
  simp only [Clause.exec] at h
  split at h
  · rename_i hu
    cases h
    exact hp.fit c s a t hs hl hu ht
  · rename_i fault u hu
    have hadv : Advances s u := by simpa [hu] using m.exec_advances p c s
    split at h
    · rename_i b v hv
      cases h
      have htaken := (advances_respected.complain c.silent [fault] v).taken
      refine AllTrees.some_iff.1 (hr.fit c u _ v (hadv.count hs) (Nat.le_trans hl (hadv.count_le hs)) hv
        ((List.reverse_prefix.2 htaken).trans ht))
    · cases h
    · cases h

instance fits_attempt (p : Clause (Option α)) [hp : Fits m e p] : Fits m e (.attempt p) := by
  refine ⟨fun c s a t hs hl h ht => ?_⟩
  simp only [Clause.exec] at h
  split at h
  · rename_i b u hu
    cases h
    exact hp.fit _ s _ t hs hl hu ht
  · cases h
    exact AllTrees.none
  · cases h
    exact AllTrees.none

theorem fit_repeated {step : σ → Clause (σ ⊕ α)} (h : ∀ x : e.Fitted σ, Fits m e (step x.val))
    (c : Context) (n : Nat) (x : e.Fitted σ) {s t : State} {a : α} (hs : s.count = s.taken.length)
    (hl : e.least ≤ s.count)
    (hr : State.repeated c (fun x s => (step x).exec m.call m.limit c s) n x.val s = .read a t)
    (ht : t.taken.reverse <+: e.tokens) : e.Fit a := by
  induction n generalizing x s with
  | zero => simp [State.repeated] at hr
  | succ n ih =>
      unfold State.repeated at hr
      split at hr
      · rename_i y u hu
        have hadv := m.advances_of_read hu
        have hrest : Advances u t := by
          simpa [hr] using advances_respected.repeated c
            (fun x s => m.exec_advances (step x) c s) n y u
        have hy := (h x).fit c s _ u hs hl hu ((List.reverse_prefix.2 hrest.taken).trans ht)
        exact ih ⟨y, ⟨hy.sound⟩⟩ (hadv.count hs) (Nat.le_trans hl (hadv.count_le hs)) hr
      · rename_i b u hu
        cases hr
        exact ⟨((h x).fit c s _ t hs hl hu ht).sound⟩
      · cases hr

theorem fits_loop {step : σ → Clause (σ ⊕ α)} {start : σ} [h₀ : e.Fit start]
    (h : ∀ x : e.Fitted σ, Fits m e (step x.val)) : Fits m e (.repeating step start) :=
  ⟨fun c _ _ _ hs hl hr ht => fit_repeated h c m.limit ⟨start, h₀⟩ hs hl hr ht⟩

instance fits_repeating (step : σ → Clause (σ ⊕ α)) (start : σ) [e.Fit start]
    [h : ∀ x : e.Fitted σ, Fits m e (step x.val)] : Fits m e (.repeating step start) := fits_loop h

instance fits_collect (p : Clause (Option α)) [Fits m e p] : Fits m e p.collect := by
  unfold Clause.collect
  refine fits_loop fun found => fits_next fun next => ?_
  obtain ⟨next, hn⟩ := next
  cases next with
  | none => exact fits_pure _
  | some a =>
      have := AllTrees.some_iff.1 hn
      exact fits_pure _

instance fits_otherwise (p : Clause (Option α)) (other : Clause α) [Fits m e p]
    [ho : Fits m e other] : Fits m e (p.otherwise other) := by
  unfold Clause.otherwise
  refine fits_next fun found => ?_
  obtain ⟨found, hf⟩ := found
  cases found with
  | none => exact ho
  | some a =>
      have := AllTrees.some_iff.1 hf
      exact fits_pure a

instance fits_isolated (p : Clause α) [Fits m e p] : Fits m e p.isolated := by
  unfold Clause.isolated
  infer_instance

/-- A rule that is admitted yields sound trees. -/
theorem fits_rule {rule : Rule α} (hr : e.Admits rule)
    (ht : ∀ a, Holds.trees a = rule.trees a) : Fits m e (.rule rule) :=
  ⟨fun c s a t hs hl h htaken => ⟨by
    rw [ht]
    exact Machine.Sound.sound rule e hr c s a t hs hl h htaken⟩⟩

variable (m e)

instance fits_expression : Fits m e Clause.expression := fits_rule trivial fun _ => rfl
instance fits_assignment : Fits m e Clause.assignment := fits_rule trivial fun _ => rfl
instance fits_type : Fits m e Clause.type := fits_rule trivial fun _ => rfl
instance fits_rule_binary : Fits m e (.rule .binary) := fits_rule trivial fun _ => rfl
instance fits_rule_unary : Fits m e (.rule .unary) := fits_rule trivial fun _ => rfl
instance fits_rule_leftHandSide : Fits m e (.rule .leftHandSide) := fits_rule trivial fun _ => rfl
instance fits_rule_memberOrNew (isNew : Bool) : Fits m e (.rule (.memberOrNew isNew)) :=
  fits_rule trivial fun _ => rfl
instance fits_rule_arguments : Fits m e (.rule .arguments) :=
  fits_rule trivial fun _ => by simp [Holds.trees, Rule.trees]
instance fits_rule_object : Fits m e (.rule .object) := fits_rule trivial fun _ => rfl
instance fits_rule_bindingTarget : Fits m e (.rule .bindingTarget) := fits_rule trivial fun _ => rfl
instance fits_rule_parameters : Fits m e (.rule .parameters) :=
  fits_rule trivial fun _ => by simp [Holds.trees, Rule.trees]
instance fits_rule_function (first : Nat) (kind : FunctionKind) (wanted : ParameterRule) :
    Fits m e (.rule (.function first kind wanted)) := fits_rule trivial fun _ => rfl
instance fits_rule_namedFunction (async : Option Nat) (isExpression nameRequired : Bool) :
    Fits m e (.rule (.namedFunction async isExpression nameRequired)) :=
  fits_rule trivial fun _ => rfl
instance fits_rule_classTail (first : Nat) (nameRequired : Bool) :
    Fits m e (.rule (.classTail first nameRequired)) := fits_rule trivial fun _ => rfl
instance fits_rule_body (kind : FunctionKind) (simple : Bool) :
    Fits m e (.rule (.body kind simple)) := fits_rule trivial fun _ => rfl
instance fits_rule_arrowBody (async simple : Bool) : Fits m e (.rule (.arrowBody async simple)) :=
  fits_rule trivial fun _ => rfl
instance fits_rule_block : Fits m e (.rule .block) := fits_rule trivial fun _ => rfl
instance fits_rule_plainType : Fits m e (.rule .plainType) := fits_rule trivial fun _ => rfl
instance fits_rule_typeOperator : Fits m e (.rule .typeOperator) := fits_rule trivial fun _ => rfl
instance fits_rule_importType : Fits m e (.rule .importType) := fits_rule trivial fun _ => rfl
instance fits_rule_typeArguments : Fits m e (.rule .typeArguments) := fits_rule trivial fun _ => rfl
instance fits_rule_typeParameters : Fits m e (.rule .typeParameters) :=
  fits_rule trivial fun _ => rfl
instance fits_rule_result (mark : Sign) : Fits m e (.rule (.result mark)) :=
  fits_rule trivial fun _ => rfl
instance fits_rule_statement (declarations topLevel : Bool) :
    Fits m e (.rule (.statement declarations topLevel)) := fits_rule trivial fun _ => rfl
instance fits_rule_moduleBlock : Fits m e (.rule .moduleBlock) := fits_rule trivial fun _ => rfl
instance fits_rule_namespaceTail (first : Nat) : Fits m e (.rule (.namespaceTail first)) :=
  fits_rule trivial fun _ => rfl

instance fits_rule_binaryTail (left : Tree) (least : Nat) [h : e.Fit left] :
    Fits m e (.rule (.binaryTail left least)) := fits_rule h fun _ => rfl

instance fits_rule_asPattern (target element : Bool) (tree : Tree) [h : e.Fit tree] :
    Fits m e (.rule (.asPattern target element tree)) := fits_rule h fun _ => rfl

instance fits_rule_subscripts (first : Nat) (callee : Callee) (noCall noIndex : Bool)
    [hf : e.From first] [h : e.Fit callee] :
    Fits m e (.rule (.subscripts first callee noCall noIndex)) := fits_rule ⟨hf, h⟩ fun _ => rfl

end Rules

/-! The shapes that neither stand for a string nor have a source nor are calls of `import`. -/

section Plain

instance : Shape.group.Plain := ⟨rfl, rfl, rfl⟩
instance : Shape.hole.Plain := ⟨rfl, rfl, rfl⟩
instance : Shape.pattern.Plain := ⟨rfl, rfl, rfl⟩
instance : Shape.arrayPattern.Plain := ⟨rfl, rfl, rfl⟩
instance : Shape.objectPattern.Plain := ⟨rfl, rfl, rfl⟩
instance : Shape.restPattern.Plain := ⟨rfl, rfl, rfl⟩
instance : Shape.initializedPattern.Plain := ⟨rfl, rfl, rfl⟩
instance : Shape.targetPattern.Plain := ⟨rfl, rfl, rfl⟩
instance : Shape.invalidPattern.Plain := ⟨rfl, rfl, rfl⟩
instance : Shape.spread.Plain := ⟨rfl, rfl, rfl⟩
instance : Shape.property.Plain := ⟨rfl, rfl, rfl⟩
instance : Shape.methodProperty.Plain := ⟨rfl, rfl, rfl⟩
instance : Shape.privateName.Plain := ⟨rfl, rfl, rfl⟩
instance : Shape.this.Plain := ⟨rfl, rfl, rfl⟩
instance : Shape.literal.Plain := ⟨rfl, rfl, rfl⟩
instance : Shape.template.Plain := ⟨rfl, rfl, rfl⟩
instance : Shape.taggedTemplate.Plain := ⟨rfl, rfl, rfl⟩
instance : Shape.array.Plain := ⟨rfl, rfl, rfl⟩
instance : Shape.object.Plain := ⟨rfl, rfl, rfl⟩
instance : Shape.function.Plain := ⟨rfl, rfl, rfl⟩
instance : Shape.classExpression.Plain := ⟨rfl, rfl, rfl⟩
instance : Shape.arrow.Plain := ⟨rfl, rfl, rfl⟩
instance : Shape.unary.Plain := ⟨rfl, rfl, rfl⟩
instance : Shape.await.Plain := ⟨rfl, rfl, rfl⟩
instance : Shape.update.Plain := ⟨rfl, rfl, rfl⟩
instance : Shape.conditional.Plain := ⟨rfl, rfl, rfl⟩
instance : Shape.call.Plain := ⟨rfl, rfl, rfl⟩
instance : Shape.member.Plain := ⟨rfl, rfl, rfl⟩
instance : Shape.superMember.Plain := ⟨rfl, rfl, rfl⟩
instance : Shape.optionalMember.Plain := ⟨rfl, rfl, rfl⟩
instance : Shape.optionalCall.Plain := ⟨rfl, rfl, rfl⟩
instance : Shape.metaProperty.Plain := ⟨rfl, rfl, rfl⟩
instance : Shape.sequence.Plain := ⟨rfl, rfl, rfl⟩
instance : Shape.yield.Plain := ⟨rfl, rfl, rfl⟩
instance : Shape.parenthesized.Plain := ⟨rfl, rfl, rfl⟩
instance : Shape.asType.Plain := ⟨rfl, rfl, rfl⟩
instance : Shape.asConst.Plain := ⟨rfl, rfl, rfl⟩
instance : Shape.satisfiesType.Plain := ⟨rfl, rfl, rfl⟩
instance : Shape.nonNull.Plain := ⟨rfl, rfl, rfl⟩
instance : Shape.typeAssertion.Plain := ⟨rfl, rfl, rfl⟩
instance : Shape.instantiation.Plain := ⟨rfl, rfl, rfl⟩
instance : Shape.invalid.Plain := ⟨rfl, rfl, rfl⟩
instance : Shape.missing.Plain := ⟨rfl, rfl, rfl⟩
instance : Shape.statement.Plain := ⟨rfl, rfl, rfl⟩
instance : Shape.expressionStatement.Plain := ⟨rfl, rfl, rfl⟩
instance : Shape.moduleDeclaration.Plain := ⟨rfl, rfl, rfl⟩
instance : Shape.module.Plain := ⟨rfl, rfl, rfl⟩
instance (name : String) : (Shape.boundName name).Plain := ⟨rfl, rfl, rfl⟩
instance (name : String) : (Shape.shorthand name).Plain := ⟨rfl, rfl, rfl⟩
instance (name : String) : (Shape.initializedProperty name).Plain := ⟨rfl, rfl, rfl⟩
instance (name : String) : (Shape.initializedShorthand name).Plain := ⟨rfl, rfl, rfl⟩
instance (name : String) : (Shape.variable name).Plain := ⟨rfl, rfl, rfl⟩
instance (operator : Operator) : (Shape.binary operator).Plain := ⟨rfl, rfl, rfl⟩
instance (plain : Bool) : (Shape.assignment plain).Plain := ⟨rfl, rfl, rfl⟩
instance (arguments : Bool) : (Shape.new arguments).Plain := ⟨rfl, rfl, rfl⟩
instance (typeOnly : Bool) : (Shape.exportNamed none typeOnly).Plain := ⟨rfl, rfl, rfl⟩
instance (shape : Shape) [h : shape.Plain] : (Shape.assigned shape).Plain :=
  ⟨h.isString_eq, h.source_eq, h.imported_eq⟩
instance (p : Prop) [Decidable p] (a b : Shape) [ha : a.Plain] [hb : b.Plain] :
    (if p then a else b).Plain := by
  split
  · exact ha
  · exact hb

end Plain

instance fits_node {m : Machine} {e : Extent} (shape : Shape) (first : Nat) (children : List Tree)
    [shape.Plain] [e.Fit children] : Fits m e (Clause.node shape first children) := by
  refine ⟨fun c s a t _ _ hr _ => ?_⟩
  cases hr
  infer_instance

end WebModules.Script
