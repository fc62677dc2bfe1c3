import WebModules.Proofs.Script.Grammar.Class

/-!
Expressions have sound trees.
-/

namespace WebModules.Script

open Clause

set_option synthInstance.maxSize 100000000

variable {m : Machine} {e : Extent}

theorem stringToken_read {c : Context} {s t : State} {number : Nat}
    (h : stringToken.exec m.call m.limit c s = .read number t) :
    number = s.count ∧ t.count = s.count + 1 ∧
      ∃ lexeme, t.taken = lexeme :: s.taken ∧ lexeme.token = .string := by
  simp only [stringToken, need, Bind.bind, Clause.exec] at h
  split at h
  · rename_i token u hu
    split at hu
    · simp [Clause.exec] at hu
    · simp [Clause.exec] at hu
    · cases hu
      split at h
      · rename_i htoken
        cases h
        obtain ⟨ht, hc⟩ := take_token (c := c) (s := (s.look c).2) (by simp [look_look, htoken])
        rw [look_look] at ht
        exact ⟨rfl, by rw [hc, (look_eq c s).2], _, by rw [ht, (look_eq c s).1], htoken⟩
      · simp [Clause.exec, unexpected] at h
  · cases h

theorem isString_of_taken {taken : List Lexeme} {lexeme : Lexeme}
    (h : (lexeme :: taken).reverse <+: e.tokens) (hl : lexeme.token = .string) :
    e.IsString taken.length := by
  refine ⟨lexeme, ?_, hl⟩
  obtain ⟨rest, hrest⟩ := h
  simp [← hrest]

variable [m.Sound]

instance fits_stringNode : Fits m e (stringToken >>= fun number => node .string number []) := by
  refine ⟨fun c s a t hs hl hr ht => ?_⟩
  obtain ⟨number, u, hu, hr⟩ := Machine.exec_bind hr
  cases hr
  obtain ⟨rfl, -, lexeme, htaken, hlexeme⟩ := stringToken_read hu
  rw [htaken] at ht
  refine AllTrees.tree_iff.2 (.node (fun _ => ⟨hl, ?_⟩) (by simp [Shape.source?]) (by simp [Shape.imported?]) (by simp))
  rw [hs]
  exact isString_of_taken ht hlexeme

instance fits_expressionBody : Fits m e expressionBody := by
  unfold expressionBody
  infer_instance

instance fits_spreadable : Fits m e spreadable := by
  unfold spreadable
  infer_instance

instance fits_arguments : Fits m e arguments := by
  unfold arguments
  dsimp only
  infer_instance

instance fits_array : Fits m e array := by
  unfold array
  dsimp only
  infer_instance

instance fits_propertyFunction (first : Nat) (key : Key) (kind : FunctionKind)
    (wanted : ParameterRule) [e.Fit key] : Fits m e (propertyFunction first key kind wanted) := by
  unfold propertyFunction
  infer_instance

instance fits_isPropertyTail (key : Key) : Fits m e (isPropertyTail key) := by
  unfold isPropertyTail
  refine fits_next fun token => ?_
  split <;> infer_instance

instance fits_wordFunction (first : Nat) (modified : Bool) (name : String) :
    Fits m e (wordFunction first modified name) := by
  unfold wordFunction
  infer_instance

instance fits_wordProperty (first keyFirst : Nat) (modified : Bool) (name : String) :
    Fits m e (wordProperty first keyFirst modified name) := by
  unfold wordProperty
  dsimp only
  infer_instance

instance fits_propertyTail (first keyFirst : Nat) (modified : Bool) (key : Key) [e.Fit key] :
    Fits m e (propertyTail first keyFirst modified key) := by
  unfold propertyTail
  cases key <;> infer_instance

instance fits_property : Fits m e property := by
  unfold property
  infer_instance

instance fits_object : Fits m e object := by
  unfold object
  dsimp only
  refine fits_next fun first => fits_next fun _ => fits_next fun found => ?_
  split <;> infer_instance

instance fits_template (tagged : Bool) : Fits m e (template tagged) := by
  unfold template
  infer_instance

instance fits_reportRegexFlags (number : Nat) (flags : List Char) :
    Fits m e (reportRegexFlags number flags) := by
  unfold reportRegexFlags
  dsimp only
  split <;> infer_instance

instance fits_regex : Fits m e regex := by
  unfold regex
  infer_instance

instance fits_conditionalTail (first : Nat) (test : Tree) [e.Fit test] :
    Fits m e (conditionalTail first test) := by
  unfold conditionalTail
  infer_instance

instance fits_simpleTarget (target : Tree) [e.Fit target] : Fits m e (simpleTarget target) := by
  unfold simpleTarget
  split <;> infer_instance

instance fits_patternTarget (pattern : Tree) [h : e.Fit pattern] :
    Fits m e (patternTarget pattern) := by
  unfold patternTarget
  split
  · obtain ⟨htarget, -⟩ := AllTrees.cons_iff.1 (Fit.of_node h)
    infer_instance
  · infer_instance

instance fits_assignmentTail (first : Nat) (target : Tree) [e.Fit target] :
    Fits m e (assignmentTail first target) := by
  unfold assignmentTail
  refine fits_next fun token => ?_
  split <;> infer_instance

instance fits_itemStart (first : Nat) : Fits m e (itemStart first) := by
  unfold itemStart
  infer_instance

instance fits_itemAsParameter (first : Nat) (isSpread : Bool) (inner : Tree) [e.Fit inner] :
    Fits m e (itemAsParameter first isSpread inner) := by
  unfold itemAsParameter
  dsimp only
  infer_instance

instance fits_parenthesizedItem : Fits m e parenthesizedItem := by
  unfold parenthesizedItem
  dsimp only
  infer_instance

instance fits_parenthesizedItems : Fits m e parenthesizedItems := by
  unfold parenthesizedItems
  dsimp only
  infer_instance

instance fits_lastParameter (comma : Option Nat) (item : Items) [h : e.Fit item] :
    Fits m e (lastParameter comma item) := by
  have htree := AllTrees.items_tree (P := e.Sound) item
  unfold lastParameter
  dsimp only
  split
  · infer_instance
  · obtain ⟨hinner, -⟩ := AllTrees.cons_iff.1 (Fit.of_node htree)
    infer_instance
  · infer_instance

theorem fits_itemsAsParameters (comma : Option Nat) {items : List Items} (h : e.Fit items) :
    Fits m e (itemsAsParameters comma items) := by
  induction items with
  | nil =>
      unfold itemsAsParameters
      infer_instance
  | cons item others ih =>
      obtain ⟨hitem, hothers⟩ := AllTrees.cons_iff.1 h
      have := ih hothers
      have := AllTrees.items_tree (P := e.Sound) item
      cases others with
      | nil =>
          unfold itemsAsParameters
          infer_instance
      | cons next others =>
          unfold itemsAsParameters
          dsimp only
          infer_instance

instance fits_arrowTail (first : Nat) (async : Bool) (items : List Items) (comma : Option Nat)
    (result : List Tree) [h : e.Fit items] [e.Fit result] :
    Fits m e (arrowTail first async items comma result) := by
  have := fits_itemsAsParameters (m := m) comma h
  unfold arrowTail
  infer_instance

instance fits_parenthesized (first : Nat) (items : List Items) [h : e.Fit items] :
    Fits m e (parenthesized first items) := by
  have hall := AllTrees.map_tree (P := e.Sound) items
  unfold parenthesized
  dsimp only
  refine fits_next fun _ => ?_
  split
  · infer_instance
  · rename_i item hitem
    rw [hitem] at hall
    obtain ⟨hitem, -⟩ := AllTrees.cons_iff.1 hall
    infer_instance
  · infer_instance

instance fits_conditionalArrow? (first : Nat) (async : Bool) (items : List Items)
    (comma : Option Nat) [e.Fit items] : Fits m e (conditionalArrow? first async items comma) := by
  unfold conditionalArrow?
  infer_instance

instance fits_arrowResult? : Fits m e arrowResult? := by
  unfold arrowResult?
  infer_instance

instance fits_parenthesizedArrow (first : Nat) (async : Bool) (items : List Items)
    (comma : Option Nat) (result : List Tree) [e.Fit items] [e.Fit result] :
    Fits m e (parenthesizedArrow first async items comma result) := by
  unfold parenthesizedArrow
  dsimp only
  infer_instance

instance fits_parenthesizedOrCall (first : Nat) (async : Bool) (items : List Items)
    [e.Fit items] : Fits m e (parenthesizedOrCall first async items) := by
  unfold parenthesizedOrCall
  dsimp only
  infer_instance

instance fits_parenthesizedOrArrow (arrowAllowed : Bool) (async : Option Nat) :
    Fits m e (parenthesizedOrArrow arrowAllowed async) := by
  unfold parenthesizedOrArrow
  dsimp only
  infer_instance

instance fits_nameOrArrow (first : Nat) (arrowAllowed : Bool) :
    Fits m e (nameOrArrow first arrowAllowed) := by
  unfold nameOrArrow
  dsimp only
  infer_instance

instance fits_primary : Fits m e primary := by
  unfold primary
  dsimp only
  refine fits_next fun first => fits_next fun noted => fits_next fun token => ?_
  split <;> infer_instance

theorem importedLiteral?_sound {arguments : List Tree} {number : Nat} (h : e.Fit arguments)
    (hn : importedLiteral? arguments = some number) : e.least ≤ number ∧ e.IsString number := by
  unfold importedLiteral? at hn
  split at hn
  · cases hn
    obtain ⟨string, -, -, -⟩ := AllTrees.tree_iff.1 (AllTrees.cons_iff.1 h).1
    exact string rfl
  · cases hn

/-- The string that a call of `import` names a module by stands among the arguments, which are read
after the first token of the call and before the last one. -/
instance fits_call (first : Nat) (callee : Callee) (generics : List Tree)
    [hf : e.From first] [hcallee : e.Fit callee] [e.Fit generics] :
    Fits m e (call first callee generics) := by
  refine ⟨fun c s a t hs hl hr ht => ?_⟩
  obtain ⟨arguments, u, hu, hr⟩ := Machine.exec_bind hr
  have hadv := m.advances_of_read hu
  have hprefix := (List.reverse_prefix.2 (m.advances_of_read hr).taken).trans ht
  have harguments := (fits_rule_arguments m e).fit c s _ u hs hl hu hprefix
  have huntil := (fits_rule_arguments m ⟨u.taken.reverse, e.least⟩).fit c s _ u hs hl hu
    (List.prefix_refl _)
  have hcount := hadv.count hs
  cases callee with
  | expression tree =>
      have := AllTrees.of_expression hcallee
      have hnode : Fits m e (callNode first (.expression tree) arguments generics) := by
        unfold callNode
        infer_instance
      exact hnode.fit c u a t hcount (Nat.le_trans hl (hadv.count_le hs)) hr ht
  | superKeyword =>
      cases hr
      infer_instance
  | importKeyword =>
      cases hr
      refine AllTrees.tree_iff.2 (.node (by simp [Shape.isString]) (fun number hn => ?_) (fun literal hliteral => ?_) ?_)
      · obtain ⟨hleast, hstring⟩ := importedLiteral?_sound harguments hn
        obtain ⟨-, lexeme, hlexeme, -⟩ := importedLiteral?_sound huntil hn
        have hlt := (List.getElem?_eq_some_iff.1 hlexeme).1
        have hle := hprefix.length_le
        simp only [List.length_reverse] at hlt hle
        exact ⟨Nat.le_trans hf.le hleast, by omega, by omega, hstring⟩
      · rw [importedLiteral?_append]
        exact (Option.some.inj hliteral).symm
      · have hparts : e.Fit (arguments ++ [Tree.ofParts generics]) := inferInstance
        exact fun t ht => AllTrees.tree_iff.1 (AllTrees.list_iff.1 hparts t ht)

instance fits_taggedTemplate (first : Nat) (tag : Tree) (generics : List Tree) [e.Fit tag]
    [e.Fit generics] : Fits m e (taggedTemplate first tag generics) := by
  unfold taggedTemplate
  dsimp only
  infer_instance

instance fits_genericAsyncArrow? (first : Nat) : Fits m e (genericAsyncArrow? first) := by
  unfold genericAsyncArrow?
  refine fits_next fun head => ?_
  split
  · infer_instance
  · rename_i parameters types hhead
    have := AllTrees.of_eq_some (P := e.Sound) hhead
    have : e.Fit parameters := AllTrees.fst (parameters, types)
    have : e.Fit types := AllTrees.snd (parameters, types)
    infer_instance

instance fits_asyncArrow? (first : Nat) (callee : Callee) (noCall : Bool) :
    Fits m e (asyncArrow? first callee noCall) := by
  unfold asyncArrow?
  dsimp only
  refine fits_next fun noted => fits_next fun ended => ?_
  split
  · refine fits_next fun arrow => ?_
    split
    · have := AllTrees.of_eq_some (P := e.Sound) ‹_ = some _›
      infer_instance
    · infer_instance
  · infer_instance

instance fits_genericLink (first : Nat) (callee : Callee) (noCall : Bool) [e.From first]
    [h : e.Fit callee] : Fits m e (genericLink first callee noCall) := by
  unfold genericLink
  refine h.callee_cases (fun tree _ => ?_) ?_ ?_ <;> infer_instance

instance fits_genericSubscript? (first : Nat) (callee : Callee) (noCall : Bool) [e.From first]
    [e.Fit callee] : Fits m e (genericSubscript? first callee noCall) := by
  unfold genericSubscript?
  infer_instance

instance fits_memberNode (first : Nat) (callee : Callee) (optional : Bool) (index : List Tree)
    [h : e.Fit callee] [e.Fit index] : Fits m e (memberNode first callee optional index) := by
  unfold memberNode
  dsimp only
  refine h.callee_cases (fun tree _ => ?_) ?_ ?_ <;> infer_instance

instance fits_nonNull (first : Nat) (callee : Callee) [h : e.Fit callee] :
    Fits m e (nonNull first callee) := by
  unfold nonNull
  refine h.callee_cases (fun tree _ => ?_) ?_ ?_ <;> infer_instance

instance fits_callLink (first : Nat) (callee : Callee) (optional : Bool) [e.From first]
    [h : e.Fit callee] : Fits m e (callLink first callee optional) := by
  unfold callLink
  dsimp only
  refine h.callee_cases (fun tree _ => ?_) ?_ ?_ <;> infer_instance

instance fits_memberLink (first : Nat) (callee : Callee) (optional : Bool) [e.Fit callee] :
    Fits m e (memberLink first callee optional) := by
  unfold memberLink
  dsimp only
  cases callee <;> infer_instance

instance fits_templateLink (first : Nat) (callee : Callee) (noCall : Bool) [h : e.Fit callee] :
    Fits m e (templateLink first callee noCall) := by
  unfold templateLink
  refine h.callee_cases (fun tree _ => ?_) ?_ ?_ <;> infer_instance

instance fits_plainSubscript (first : Nat) (callee : Callee) (noCall noIndex : Bool) [e.From first]
    [e.Fit callee] : Fits m e (plainSubscript first callee noCall noIndex) := by
  unfold plainSubscript
  dsimp only
  infer_instance

instance fits_subscript (first : Nat) (callee : Callee) (noCall noIndex : Bool) [e.From first]
    [e.Fit callee] : Fits m e (subscript first callee noCall noIndex) := by
  unfold subscript
  infer_instance

instance fits_subscripts (first : Nat) (callee : Callee) (noCall noIndex : Bool) [e.From first]
    [e.Fit callee] : Fits m e (subscripts first callee noCall noIndex) := by
  unfold subscripts
  infer_instance

instance fits_importTail (first : Nat) (noCall : Bool) [e.From first] :
    Fits m e (importTail first noCall) := by
  unfold importTail
  dsimp only
  infer_instance

instance fits_memberOrNew (isNew : Bool) : Fits m e (memberOrNew isNew) := by
  unfold memberOrNew
  dsimp only
  refine fits_mark fun first _ => ?_
  infer_instance

instance fits_leftHandSide : Fits m e leftHandSide := by
  unfold leftHandSide
  dsimp only
  refine fits_mark fun first _ => ?_
  infer_instance

instance fits_awaited : Fits m e awaited := by
  unfold awaited
  dsimp only
  infer_instance

instance fits_unary : Fits m e unary := by
  unfold unary
  dsimp only
  infer_instance

instance fits_castType : Fits m e castType := by
  unfold castType
  dsimp only
  infer_instance

instance fits_operation (left : Tree) (operator : Operator) (precedence : Nat) [e.Fit left] :
    Fits m e (operation left operator precedence) := by
  unfold operation
  dsimp only
  infer_instance

instance fits_binaryStep (left : Tree) (least : Nat) [e.Fit left] :
    Fits m e (binaryStep left least) := by
  unfold binaryStep
  dsimp only
  refine fits_next fun ended => fits_next fun isAs => ?_
  split
  · infer_instance
  · refine fits_next fun ended => fits_next fun isSatisfies => ?_
    split
    · infer_instance
    · refine fits_next fun found => ?_
      split <;> infer_instance

instance fits_binaryTail (left : Tree) (least : Nat) [e.Fit left] :
    Fits m e (binaryTail left least) := by
  unfold binaryTail
  infer_instance

instance fits_missingOperand? : Fits m e missingOperand? := by
  unfold missingOperand?
  refine fits_next fun number => fits_next fun token => ?_
  split <;> infer_instance

instance fits_binary : Fits m e binary := by
  unfold binary
  infer_instance

instance fits_genericArrow? : Fits m e genericArrow? := by
  unfold genericArrow?
  infer_instance

instance fits_yielded : Fits m e yielded := by
  unfold yielded
  infer_instance

instance fits_plainAssignment : Fits m e plainAssignment := by
  unfold plainAssignment
  refine fits_next fun surroundings => fits_next fun isYield => ?_
  split
  · infer_instance
  · refine fits_next fun first => fits_next fun mayStart => fits_next fun _ => fits_next fun test => ?_
    split
    · infer_instance
    · refine fits_next fun question => ?_
      split
      · infer_instance
      · split <;> infer_instance

instance fits_assignmentBody : Fits m e assignmentBody := by
  unfold assignmentBody
  infer_instance

end WebModules.Script
