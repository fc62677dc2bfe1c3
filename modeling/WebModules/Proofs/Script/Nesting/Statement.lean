import WebModules.Proofs.Script.Nesting.Expression

/-!
Statements and declarations have trees within each other, and tokens of their own.
-/

namespace WebModules.Script

open Clause

set_option synthInstance.maxSize 100000000

variable {m : Machine} {g : Grade} {lo hi : Nat} {next : Option Token} [m.Nesting]

instance nests_blockTail (topLevel : Bool) : Nests m .any lo hi next (blockTail topLevel) := by
  unfold blockTail
  infer_instance

instance nests_block [g.Weaker .solid] : Nests m g lo hi next block := by
  unfold block
  refine nests_here (k := .solid) ?_
  infer_instance

instance moves_block : Moves m block true := moves_of_solid fun _ => inferInstance

instance nests_declarator (inHead isConst : Bool) : Nests m .any lo hi next (declarator inHead isConst) := by
  unfold declarator
  dsimp only
  infer_instance

instance nests_declarators (inHead isConst : Bool) (keyword : Nat) :
    Nests m .any lo hi next (declarators inHead isConst keyword) := by
  unfold declarators
  dsimp only
  infer_instance

instance nests_variableStatement (token : Token) [token.Live] [g.Weaker .solid] :
    Nests m g lo hi (some token) variableStatement := by
  unfold variableStatement
  dsimp only
  refine nests_here (k := .solid) ?_
  infer_instance

instance : Peeks letDeclares := by
  unfold letDeclares
  refine @peeks_bind _ _ _ _ _ fun token => ?_
  split <;> infer_instance

instance moves_condition : Moves m condition true := (takes_first (takes_of_moves _)).moves

instance : Reads condition .solid := ⟨⟩

instance nests_condition : Nests m .solid lo hi next condition := by
  unfold condition
  infer_instance

instance nests_substatement : Nests m .any lo hi next substatement := by
  unfold substatement
  infer_instance

instance nests_ifStatement : Nests m .solid lo hi next ifStatement := by
  unfold ifStatement
  refine nests_here (k := .solid) ?_
  infer_instance

instance nests_returnStatement (token : Token) [token.Live] :
    Nests m .solid lo hi (some token) returnStatement := by
  unfold returnStatement
  dsimp only
  refine nests_here (k := .solid) ?_
  infer_instance

instance nests_switchCase (seen : Bool) : Nests m .any lo hi next (switchCase seen) := by
  unfold switchCase
  dsimp only
  refine nests_here (k := .any) ?_
  infer_instance

instance nests_switchStatement : Nests m .solid lo hi next switchStatement := by
  unfold switchStatement
  dsimp only
  refine nests_here (k := .solid) ?_
  infer_instance

instance nests_throwStatement : Nests m .solid lo hi next throwStatement := by
  unfold throwStatement
  dsimp only
  refine nests_here (k := .solid) ?_
  infer_instance

instance nests_caught : Nests m .any lo hi next caught := by
  unfold caught
  infer_instance

instance nests_catchClause : Nests m .any lo hi next catchClause := by
  unfold catchClause
  infer_instance

instance nests_finallyClause : Nests m .any lo hi next finallyClause := by
  unfold finallyClause
  infer_instance

instance nests_tryStatement : Nests m .solid lo hi next tryStatement := by
  unfold tryStatement
  dsimp only
  refine nests_here (k := .solid) ?_
  infer_instance

instance nests_whileStatement : Nests m .solid lo hi next whileStatement := by
  unfold whileStatement
  refine nests_here (k := .solid) ?_
  infer_instance

instance nests_doStatement : Nests m .solid lo hi next doStatement := by
  unfold doStatement
  refine nests_here (k := .solid) ?_
  infer_instance

instance nests_loopRange : Nests m .any lo hi next loopRange := by
  unfold loopRange
  infer_instance

instance nests_loopSteps : Nests m .any lo hi next loopSteps := by
  unfold loopSteps
  dsimp only
  infer_instance

instance nests_declaringHead : Nests m .any lo hi next declaringHead := by
  unfold declaringHead
  dsimp only
  infer_instance

instance nests_loopHead : Nests m .any lo hi next loopHead := by
  unfold loopHead
  dsimp only
  infer_instance

instance nests_forStatement : Nests m .solid lo hi next forStatement := by
  unfold forStatement
  dsimp only
  refine nests_here (k := .solid) ?_
  infer_instance

instance nests_jumpStatement (token : Token) [token.Live] : Nests m .solid lo hi (some token) jumpStatement := by
  unfold jumpStatement
  dsimp only
  refine nests_here (k := .solid) ?_
  infer_instance

instance nests_labelled (first : Nat) (label : String) [Below first hi] :
    Nests m .solid first hi next (labelled first label) := by
  unfold labelled
  dsimp only
  infer_instance

instance nests_withStatement : Nests m .solid lo hi next withStatement := by
  unfold withStatement
  refine nests_here (k := .solid) ?_
  infer_instance

theorem nests_report {β : Type} [Holds β] {token : Token} (htoken : token ≠ .malformed) {place : Place}
    {complaint : Complaint} {f : Unit → Clause β} (hf : Nests m g lo hi (some token) (f ())) :
    Nests m g lo hi (some token) (.report place complaint >>= f) := by
  refine ⟨fun c s b t hs hcount hnext hlo hr => ?_⟩
  obtain ⟨_, u, hu, hr⟩ := Machine.exec_bind hr
  have hregular := (m.proceeds_of_read hu).regular hs
  cases hu
  obtain ⟨looked, hlooked, rfl⟩ := Option.map_eq_some_iff.1 (hnext token rfl)
  have hkeeps : (s.report c place complaint).count = s.count ∧
      (s.report c place complaint).current? = s.current? := by
    unfold State.report
    split
    · exact ⟨rfl, rfl⟩
    · simp only [State.faultAt, State.look, hlooked, State.passMalformed, if_neg htoken]
      obtain ⟨noted, hnoted⟩ := complain_eq c.silent [s.fault place complaint looked.lexeme] s
      rw [hnoted]
      exact ⟨rfl, hlooked⟩
  have hnext' : (s.report c place complaint).Next (some looked.lexeme.token) := by
    rintro _ ⟨⟩
    rw [hkeeps.2, hlooked]
    rfl
  exact hf.nests c _ b t hregular (hkeeps.1.trans hcount) hnext' hlo hr

theorem nests_knownWord {β : Type} [Holds β] {w : String} {f : Bool → Clause β}
    (hf : ∀ n : Onward true hi, Nests m g lo n.val none (f true)) :
    Nests m g lo hi (some (.word w)) (eatWord w >>= f) := by
  unfold eatWord
  refine nests_bind_bind _ _ _ (h := nests_known ?_)
  rw [beq_self_eq_true, if_pos rfl]
  infer_instance

theorem nests_otherWord {β : Type} [Holds β] {w : String} {token : Token} (hne : token ≠ .word w) {f : Bool → Clause β}
    (hf : Nests m g lo hi (some token) (f false)) : Nests m g lo hi (some token) (eatWord w >>= f) := by
  unfold eatWord
  refine nests_bind_bind _ _ _ (h := nests_known ?_)
  rw [beq_false_of_ne hne, if_neg Bool.false_ne_true]
  infer_instance

/-- A clause that is there without its statement takes the token that it begins with. -/
theorem nests_strayClause {token : Token} (htoken : token = .word "catch" ∨ token = .word "finally") :
    Nests m .solid lo hi (some token) strayClause := by
  unfold strayClause
  refine nests_here (k := .solid) (nests_mark _ (h := nests_report (by obtain rfl | rfl := htoken <;> nofun) ?_))
  obtain rfl | rfl := htoken
  · unfold catchClause
    refine nests_bind_bind _ _ _ (h := nests_knownWord fun n => ?_)
    infer_instance
  · unfold catchClause finallyClause
    refine nests_bind_bind _ _ _ (h := nests_otherWord (by decide) ?_)
    refine nests_pure_bind _ _ (h := nests_bind_bind _ _ _ (h := nests_knownWord fun n => ?_))
    infer_instance

instance : Nests m .solid lo hi (some (.word "catch")) strayClause := nests_strayClause (.inl rfl)
instance : Nests m .solid lo hi (some (.word "finally")) strayClause := nests_strayClause (.inr rfl)

instance nests_functionStatement (declarations : Bool) :
    Nests m .solid lo hi next (functionStatement declarations) := by
  unfold functionStatement
  infer_instance

instance (first : Nat) : Reads (classStatement first) .solid := ⟨⟩

instance nests_classStatement (first : Nat) [AtMost lo first] [AtMost first hi] :
    Nests m .solid lo hi next (classStatement first) := by
  unfold classStatement
  infer_instance

instance nests_enumName (first : Nat) : Nests m .any lo hi next (enumName first) := by
  unfold enumName
  refine nests_need fun token _ => ?_
  split <;> infer_instance

instance nests_enumMember : Nests m .any lo hi next enumMember := by
  unfold enumMember
  dsimp only
  infer_instance

instance (first : Nat) : Reads (enumTail first) .solid := ⟨⟩

instance nests_enumTail (first : Nat) [AtMost first hi] : Nests m .solid first hi next (enumTail first) := by
  unfold enumTail
  dsimp only
  infer_instance

instance (first : Nat) : Reads (interfaceTail first) .solid := ⟨⟩

instance nests_interfaceTail (first : Nat) [AtMost first hi] :
    Nests m .solid first hi next (interfaceTail first) := by
  unfold interfaceTail
  dsimp only
  infer_instance

instance (first : Nat) : Reads (aliasTail first) .solid := ⟨⟩

instance nests_aliasTail (first : Nat) [AtMost first hi] : Nests m .solid first hi next (aliasTail first) := by
  unfold aliasTail
  dsimp only
  infer_instance

instance moves_moduleBlock : Moves m moduleBlock true := (takes_later fun _ => takes_first (takes_of_moves _)).moves

instance nests_moduleBlock : Nests m .any lo hi next moduleBlock := by
  unfold moduleBlock
  refine nests_here (k := .solid) ?_
  infer_instance

instance nests_namespaceTail (first : Nat) [AtMost lo first] [AtMost first hi] [g.Weaker .solid] :
    Nests m g lo hi next (namespaceTail first) := by
  unfold namespaceTail
  refine Nests.weaken (l := first) (k := .solid) ?_
  infer_instance

instance (first : Nat) : Reads (ambientModule first) .solid := ⟨⟩

instance nests_ambientModule (first : Nat) [AtMost first hi] :
    Nests m .solid first hi next (ambientModule first) := by
  unfold ambientModule
  refine nests_need fun token _ => ?_
  split <;> infer_instance

instance (first : Nat) (word : String) (next : Bool) : Reads (wordDeclaration? first word next) .solid := ⟨⟩

instance nests_wordDeclaration? (first : Nat) (word : String) (isNext : Bool) [AtMost first hi] :
    Nests m .solid first hi next (wordDeclaration? first word isNext) := by
  unfold wordDeclaration?
  dsimp only
  split <;> infer_instance

instance : Reads variableStatement .solid := ⟨⟩

instance nests_ambientBody? (first : Nat) [AtMost first hi] :
    Nests m .solid first hi next (ambientBody? first) := by
  unfold ambientBody?
  refine nests_current fun token => ?_
  split <;> infer_instance

instance (first : Nat) : Reads (ambientDeclaration? first) .solid := ⟨⟩

instance nests_ambientDeclaration? (first : Nat) [AtMost first hi] :
    Nests m .solid first hi next (ambientDeclaration? first) := by
  unfold ambientDeclaration?
  infer_instance

instance (first : Nat) (name : String) : Reads (namedDeclaration? first name) .solid := ⟨⟩

instance nests_namedDeclaration? (first : Nat) (name : String) [Below first hi] :
    Nests m .solid first hi next (namedDeclaration? first name) := by
  unfold namedDeclaration?
  split <;> infer_instance

instance nests_expressionEnd (first : Nat) (tree : Tree) [Below first hi]
    [AllTrees (Grade.solid.Of first hi) tree] : Nests m .solid first hi next (expressionEnd first tree) := by
  unfold expressionEnd
  infer_instance

instance nests_expressionStatement (first : Nat) [AtMost first hi] :
    Nests m .solid first hi next (expressionStatement first) := by
  unfold expressionStatement
  refine nests_next (k := .solid) inferInstance fun n tree => ?_
  split <;> infer_instance

instance nests_awaitStatement (first : Nat) (token : Token) [token.Live] [AtMost first hi] :
    Nests m .solid first hi (some token) (awaitStatement first) := by
  unfold awaitStatement
  refine nests_from (l := hi) (k := .solid) inferInstance fun n operand => ?_
  refine nests_from (l := hi) (k := .solid) inferInstance fun n' tree => ?_
  obtain ⟨lower, filled, upper, -⟩ := AllTrees.tree_iff.1 tree.fit
  have : Below hi n'.val := ⟨Nat.lt_of_le_of_lt lower (Nat.lt_of_lt_of_le filled upper)⟩
  have : Below first n'.val := ⟨Nat.lt_of_le_of_lt AtMost.le (Below.lt (a := hi))⟩
  infer_instance

instance nests_ordinaryStatement (declarations topLevel : Bool) :
    Nests m .solid lo hi next (ordinaryStatement declarations topLevel) := by
  unfold ordinaryStatement
  dsimp only
  refine nests_here (k := .solid) (nests_mark _ (h := nests_need fun token _ => ?_))
  split <;> infer_instance

instance nests_nestedModuleItem : Nests m .solid lo hi next nestedModuleItem := by
  unfold nestedModuleItem
  refine nests_here (k := .solid) ?_
  infer_instance

end WebModules.Script
