import WebModules.Proofs.Script.Grammar.Expression

/-!
Statements and declarations have sound trees.
-/

namespace WebModules.Script

open Clause

set_option synthInstance.maxSize 100000000

variable {m : Machine} {e : Extent} [m.Sound]

instance fits_blockTail (topLevel : Bool) : Fits m e (blockTail topLevel) := by
  unfold blockTail
  infer_instance

instance fits_block : Fits m e block := by
  unfold block
  infer_instance

instance fits_declarator (inHead isConst : Bool) : Fits m e (declarator inHead isConst) := by
  unfold declarator
  dsimp only
  infer_instance

instance fits_declarators (inHead isConst : Bool) (keyword : Nat) :
    Fits m e (declarators inHead isConst keyword) := by
  unfold declarators
  dsimp only
  infer_instance

instance fits_variableStatement : Fits m e variableStatement := by
  unfold variableStatement
  dsimp only
  infer_instance

instance fits_condition : Fits m e condition := by
  unfold condition
  infer_instance

instance fits_substatement : Fits m e substatement := by
  unfold substatement
  infer_instance

instance fits_ifStatement : Fits m e ifStatement := by
  unfold ifStatement
  infer_instance

instance fits_returnStatement : Fits m e returnStatement := by
  unfold returnStatement
  dsimp only
  infer_instance

instance fits_switchCase (seen : Bool) : Fits m e (switchCase seen) := by
  unfold switchCase
  dsimp only
  infer_instance

instance fits_switchStatement : Fits m e switchStatement := by
  unfold switchStatement
  dsimp only
  infer_instance

instance fits_throwStatement : Fits m e throwStatement := by
  unfold throwStatement
  dsimp only
  infer_instance

instance fits_caught : Fits m e caught := by
  unfold caught
  infer_instance

instance fits_catchClause : Fits m e catchClause := by
  unfold catchClause
  infer_instance

instance fits_finallyClause : Fits m e finallyClause := by
  unfold finallyClause
  infer_instance

instance fits_tryStatement : Fits m e tryStatement := by
  unfold tryStatement
  dsimp only
  infer_instance

instance fits_strayClause : Fits m e strayClause := by
  unfold strayClause
  infer_instance

instance fits_whileStatement : Fits m e whileStatement := by
  unfold whileStatement
  infer_instance

instance fits_doStatement : Fits m e doStatement := by
  unfold doStatement
  infer_instance

instance fits_loopRange : Fits m e loopRange := by
  unfold loopRange
  infer_instance

instance fits_loopSteps : Fits m e loopSteps := by
  unfold loopSteps
  dsimp only
  infer_instance

instance fits_declaringHead : Fits m e declaringHead := by
  unfold declaringHead
  dsimp only
  infer_instance

instance fits_loopHead : Fits m e loopHead := by
  unfold loopHead
  dsimp only
  infer_instance

instance fits_forStatement : Fits m e forStatement := by
  unfold forStatement
  dsimp only
  infer_instance

instance fits_jumpStatement : Fits m e jumpStatement := by
  unfold jumpStatement
  dsimp only
  infer_instance

instance fits_labelled (first : Nat) (label : String) : Fits m e (labelled first label) := by
  unfold labelled
  dsimp only
  infer_instance

instance fits_withStatement : Fits m e withStatement := by
  unfold withStatement
  infer_instance

instance fits_functionStatement (declarations : Bool) :
    Fits m e (functionStatement declarations) := by
  unfold functionStatement
  dsimp only
  infer_instance

instance fits_classStatement (first : Nat) : Fits m e (classStatement first) := by
  unfold classStatement
  infer_instance

instance fits_enumName (first : Nat) : Fits m e (enumName first) := by
  unfold enumName
  refine fits_next fun token => ?_
  split <;> infer_instance

instance fits_enumMember : Fits m e enumMember := by
  unfold enumMember
  dsimp only
  infer_instance

instance fits_enumTail (first : Nat) : Fits m e (enumTail first) := by
  unfold enumTail
  dsimp only
  infer_instance

instance fits_interfaceTail (first : Nat) : Fits m e (interfaceTail first) := by
  unfold interfaceTail
  dsimp only
  infer_instance

instance fits_aliasTail (first : Nat) : Fits m e (aliasTail first) := by
  unfold aliasTail
  dsimp only
  infer_instance

instance fits_moduleBlock : Fits m e moduleBlock := by
  unfold moduleBlock
  infer_instance

instance fits_namespaceTail (first : Nat) : Fits m e (namespaceTail first) := by
  unfold namespaceTail
  infer_instance

instance fits_ambientModule (first : Nat) : Fits m e (ambientModule first) := by
  unfold ambientModule
  refine fits_next fun token => ?_
  split <;> infer_instance

instance fits_wordDeclaration? (first : Nat) (word : String) (next : Bool) :
    Fits m e (wordDeclaration? first word next) := by
  unfold wordDeclaration?
  dsimp only
  split <;> infer_instance

instance fits_ambientBody? (first : Nat) : Fits m e (ambientBody? first) := by
  unfold ambientBody?
  refine fits_next fun token => ?_
  split <;> infer_instance

instance fits_ambientDeclaration? (first : Nat) : Fits m e (ambientDeclaration? first) := by
  unfold ambientDeclaration?
  infer_instance

instance fits_namedDeclaration? (first : Nat) (name : String) :
    Fits m e (namedDeclaration? first name) := by
  unfold namedDeclaration?
  split <;> infer_instance

instance fits_expressionEnd (first : Nat) (tree : Tree) [e.Fit tree] :
    Fits m e (expressionEnd first tree) := by
  unfold expressionEnd
  infer_instance

instance fits_expressionStatement (first : Nat) : Fits m e (expressionStatement first) := by
  unfold expressionStatement
  refine fits_next fun tree => ?_
  split <;> infer_instance

instance fits_awaitStatement (first : Nat) : Fits m e (awaitStatement first) := by
  unfold awaitStatement
  infer_instance

instance fits_ordinaryStatement (declarations topLevel : Bool) :
    Fits m e (ordinaryStatement declarations topLevel) := by
  unfold ordinaryStatement
  dsimp only
  refine fits_next fun first => fits_next fun token => ?_
  split <;> infer_instance

instance fits_nestedModuleItem : Fits m e nestedModuleItem := by
  unfold nestedModuleItem
  infer_instance

end WebModules.Script
