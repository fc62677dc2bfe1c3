import WebModules.Proofs.Script.Grammar.Type

/-!
Functions and classes have sound trees.
-/

namespace WebModules.Script

open Clause

set_option synthInstance.maxSize 100000000

variable {m : Machine} {e : Extent} [m.Sound]

instance fits_body (kind : FunctionKind) (simple : Bool) : Fits m e (body kind simple) := by
  unfold body
  dsimp only
  infer_instance

instance fits_arrowBody (async simple : Bool) : Fits m e (arrowBody async simple) := by
  unfold arrowBody
  dsimp only
  infer_instance

instance fits_function (first : Nat) (kind : FunctionKind) (wanted : ParameterRule) :
    Fits m e (function first kind wanted) := by
  unfold function
  dsimp only
  infer_instance

instance fits_boundName? (required : Bool) : Fits m e (boundName? required) := by
  unfold boundName?
  infer_instance

instance fits_namedFunction (async : Option Nat) (isExpression nameRequired : Bool) :
    Fits m e (namedFunction async isExpression nameRequired) := by
  unfold namedFunction
  dsimp only
  split <;> infer_instance

instance fits_classKey : Fits m e classKey := by
  unfold classKey
  dsimp only
  infer_instance

instance fits_method (head : MemberHead) (key : Key) (kind : FunctionKind) (wanted : ParameterRule)
    [e.Fit key] : Fits m e (method head key kind wanted) := by
  unfold method
  dsimp only
  infer_instance

instance fits_field (head : MemberHead) (keyFirst : Nat) (key : Key) [e.Fit key] :
    Fits m e (field head keyFirst key) := by
  unfold field
  dsimp only
  infer_instance

instance fits_constructor (head : MemberHead) : Fits m e (constructor head) := by
  unfold constructor
  dsimp only
  infer_instance

instance fits_staticBlock (head : MemberHead) : Fits m e (staticBlock head) := by
  unfold staticBlock
  infer_instance

instance fits_specialMember (head : MemberHead) (keyFirst : Nat) (word : String) :
    Fits m e (specialMember head keyFirst word) := by
  unfold specialMember
  dsimp only
  infer_instance

instance fits_namedMember (head : MemberHead) : Fits m e (namedMember head) := by
  unfold namedMember
  dsimp only
  infer_instance

instance fits_memberTail (head : MemberHead) : Fits m e (memberTail head) := by
  unfold memberTail
  infer_instance

instance fits_namedByModifier? (head : MemberHead) (word : String) (number : Nat) :
    Fits m e (namedByModifier? head word number) := by
  unfold namedByModifier?
  infer_instance

instance fits_modifiedMember (head : MemberHead) : Fits m e (modifiedMember head) := by
  unfold modifiedMember
  dsimp only
  infer_instance

instance fits_staticMember (head : MemberHead) : Fits m e (staticMember head) := by
  unfold staticMember
  dsimp only
  infer_instance

instance fits_declareMember (head : MemberHead) (rest : MemberHead → Clause Tree)
    [∀ head, Fits m e (rest head)] : Fits m e (declareMember head rest) := by
  unfold declareMember
  infer_instance

instance fits_classMember : Fits m e classMember := by
  unfold classMember
  dsimp only
  infer_instance

instance fits_classMembers : Fits m e classMembers := by
  unfold classMembers
  infer_instance

instance fits_withArguments (tree : Tree) [h : e.Fit tree] : Fits m e (withArguments tree) := by
  unfold withArguments
  split
  · obtain ⟨hinner, harguments⟩ := AllTrees.cons_iff.1 (Fit.of_node h)
    infer_instance
  · infer_instance

instance fits_baseClass : Fits m e baseClass := by
  unfold baseClass
  infer_instance

instance fits_heritage : Fits m e heritage := by
  unfold heritage
  refine fits_mark fun first _ => fits_next fun name => fits_next fun root => ?_
  infer_instance

instance fits_heritages : Fits m e heritages := by
  unfold heritages
  infer_instance

instance fits_extended? : Fits m e extended? := by
  unfold extended?
  infer_instance

instance fits_misplacedExtended? (complaint : Complaint) :
    Fits m e (misplacedExtended? complaint) := by
  unfold misplacedExtended?
  infer_instance

instance fits_implemented : Fits m e implemented := by
  unfold implemented
  infer_instance

instance fits_classTail (first : Nat) (nameRequired : Bool) :
    Fits m e (classTail first nameRequired) := by
  unfold classTail
  dsimp only
  infer_instance

end WebModules.Script
