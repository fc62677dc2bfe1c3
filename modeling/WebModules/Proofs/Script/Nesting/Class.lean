import WebModules.Proofs.Script.Nesting.Type

/-!
Functions and classes have trees within each other.
-/

namespace WebModules.Script

open Clause

set_option synthInstance.maxSize 100000000

variable {m : Machine} {g : Grade} {lo hi : Nat} {next : Option Token} [m.Nesting]

instance nests_body (kind : FunctionKind) (simple : Bool) : Nests m .any lo hi next (body kind simple) := by
  unfold body
  dsimp only
  infer_instance

instance nests_arrowBody (async simple : Bool) : Nests m .any lo hi next (arrowBody async simple) := by
  unfold arrowBody
  dsimp only
  infer_instance

instance nests_function (first : Nat) (kind : FunctionKind) (wanted : ParameterRule) :
    Nests m .any lo hi next (function first kind wanted) := by
  unfold function
  dsimp only
  infer_instance

instance nests_boundName? (required : Bool) : Nests m .any lo hi next (boundName? required) := by
  unfold boundName?
  infer_instance

instance nests_namedFunction (isExpression nameRequired : Bool) [g.Weaker .solid] :
    Nests m g lo hi next (namedFunction none isExpression nameRequired) := by
  unfold namedFunction
  dsimp only
  refine nests_here (k := .solid) ?_
  infer_instance

instance nests_asyncFunction (first : Nat) (isExpression nameRequired : Bool) [AtMost lo first] [AtMost first hi]
    [g.Weaker .solid] : Nests m g lo hi next (namedFunction (some first) isExpression nameRequired) := by
  unfold namedFunction
  dsimp only
  refine Nests.weaken (l := first) (k := .solid) ?_
  infer_instance

instance nests_classKey : Nests m .any lo hi next classKey := by
  unfold classKey
  dsimp only
  infer_instance

instance nests_method (head : MemberHead) (key : Key) (kind : FunctionKind) (wanted : ParameterRule)
    [AllTrees (Grade.any.Of lo hi) key] : Nests m .any lo hi next (method head key kind wanted) := by
  unfold method
  dsimp only
  infer_instance

instance nests_field (head : MemberHead) (keyFirst : Nat) (key : Key) [AllTrees (Grade.any.Of lo hi) key] :
    Nests m .any lo hi next (field head keyFirst key) := by
  unfold field
  dsimp only
  infer_instance

instance nests_constructor (head : MemberHead) : Nests m .any lo hi next (constructor head) := by
  unfold constructor
  dsimp only
  infer_instance

instance nests_staticBlock (head : MemberHead) : Nests m .any lo hi next (staticBlock head) := by
  unfold staticBlock
  infer_instance

instance nests_specialMember (head : MemberHead) (keyFirst : Nat) (word : String) :
    Nests m .any lo hi next (specialMember head keyFirst word) := by
  unfold specialMember
  dsimp only
  infer_instance

instance nests_namedMember (head : MemberHead) : Nests m .any lo hi next (namedMember head) := by
  unfold namedMember
  dsimp only
  infer_instance

instance nests_memberTail (head : MemberHead) : Nests m .any lo hi next (memberTail head) := by
  unfold memberTail
  infer_instance

instance nests_namedByModifier? (head : MemberHead) (word : String) (number : Nat) :
    Nests m .any lo hi next (namedByModifier? head word number) := by
  unfold namedByModifier?
  infer_instance

instance nests_modifiedMember (head : MemberHead) : Nests m .any lo hi next (modifiedMember head) := by
  unfold modifiedMember
  dsimp only
  infer_instance

instance nests_staticMember (head : MemberHead) : Nests m .any lo hi next (staticMember head) := by
  unfold staticMember
  dsimp only
  infer_instance

instance nests_declareMember (head : MemberHead) (rest : MemberHead → Clause Tree)
    [∀ lo hi next head, Nests m .any lo hi next (rest head)] : Nests m .any lo hi next (declareMember head rest) := by
  unfold declareMember
  infer_instance

instance nests_classMember : Nests m .any lo hi next classMember := by
  unfold classMember
  dsimp only
  infer_instance

instance nests_classMembers : Nests m .any lo hi next classMembers := by
  unfold classMembers
  infer_instance

instance nests_withArguments (tree : Tree) [h : AllTrees (Grade.any.Of lo hi) tree] :
    Nests m .any lo hi next (withArguments tree) := by
  unfold withArguments
  split
  · obtain ⟨hinner, harguments⟩ := AllTrees.cons_iff.1 (AllTrees.of_node h)
    infer_instance
  · infer_instance

instance nests_baseClass : Nests m .any lo hi next baseClass := by
  unfold baseClass
  infer_instance

instance nests_heritage : Nests m .any lo hi next heritage := by
  unfold heritage
  refine nests_here (k := .any) ?_
  infer_instance

instance nests_heritages : Nests m .any lo hi next heritages := by
  unfold heritages
  infer_instance

instance nests_extended? : Nests m .any lo hi next extended? := by
  unfold extended?
  infer_instance

instance nests_misplacedExtended? (complaint : Complaint) :
    Nests m .any lo hi next (misplacedExtended? complaint) := by
  unfold misplacedExtended?
  infer_instance

instance nests_implemented : Nests m .any lo hi next implemented := by
  unfold implemented
  infer_instance

instance nests_classTail (first : Nat) (nameRequired : Bool) [AtMost lo first] [AtMost first hi] [g.Weaker .solid] :
    Nests m g lo hi next (classTail first nameRequired) := by
  unfold classTail
  dsimp only
  refine Nests.weaken (l := first) (k := .solid) ?_
  infer_instance

end WebModules.Script
