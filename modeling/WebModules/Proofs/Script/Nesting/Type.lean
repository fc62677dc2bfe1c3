import WebModules.Proofs.Script.Nesting.Pattern

/-!
Types have trees within each other.
-/

namespace WebModules.Script

open Clause

set_option synthInstance.maxSize 100000000

variable {m : Machine} {g : Grade} {lo hi : Nat} {next : Option Token} [m.Nesting]

instance nests_commaSeparated {α : Type} [Holds α] (atEnd : Clause Bool) (item : Clause α)
    [∀ lo hi next, Nests m .any lo hi next item] : Nests m .any lo hi next (commaSeparated atEnd item) := by
  unfold commaSeparated
  dsimp only
  infer_instance

instance nests_typeAfter? (mark : Sign) : Nests m .any lo hi next (typeAfter? mark) := by
  unfold typeAfter?
  infer_instance

instance nests_typeArguments : Nests m .any lo hi next typeArguments := by
  unfold typeArguments
  dsimp only
  infer_instance

instance nests_typeArgumentsHere : Nests m .any lo hi next typeArgumentsHere := by
  unfold typeArgumentsHere
  infer_instance

instance nests_typeArguments? : Nests m .any lo hi next typeArguments? := by
  unfold typeArguments?
  infer_instance

instance nests_typeParameter : Nests m .any lo hi next typeParameter := by
  unfold typeParameter
  infer_instance

instance nests_typeParameters : Nests m .any lo hi next typeParameters := by
  unfold typeParameters
  dsimp only
  infer_instance

instance nests_typeParameters? : Nests m .any lo hi next typeParameters? := by
  unfold typeParameters?
  infer_instance

instance nests_result (mark : Sign) : Nests m .any lo hi next (result mark) := by
  unfold result
  dsimp only
  infer_instance

instance nests_result? : Nests m .any lo hi next result? := by
  unfold result?
  infer_instance

instance nests_signatureParameters : Nests m .any lo hi next signatureParameters := by
  unfold signatureParameters
  dsimp only
  infer_instance

instance nests_functionType : Nests m .any lo hi next functionType := by
  unfold functionType
  infer_instance

instance nests_plainType : Nests m .any lo hi next plainType := by
  unfold plainType
  dsimp only
  infer_instance

instance nests_typeBody : Nests m .any lo hi next typeBody := by
  unfold typeBody
  infer_instance

instance nests_indexSignature? : Nests m .any lo hi next indexSignature? := by
  unfold indexSignature?
  dsimp only
  infer_instance

instance nests_callSignature : Nests m .any lo hi next callSignature := by
  unfold callSignature
  infer_instance

/-- A key that is a name of its own starts where the key does. -/
instance nests_memberKey : Nests m .any lo hi next memberKey := by
  unfold memberKey
  refine nests_eat _ _ (h := fun n => ?_) (e := nests_ite_false _ _ (h := nests_need fun token _ => ?_))
  · infer_instance
  · split
    · infer_instance
    · infer_instance
    · exact nests_here (k := .any) inferInstance

instance nests_propertySignature (first : Nat) (readonly : Bool) :
    Nests m .any lo hi next (propertySignature first readonly) := by
  unfold propertySignature
  dsimp only
  infer_instance

instance nests_accessorSignature (first : Nat) (readonly : Bool) :
    Nests m .any lo hi next (accessorSignature first readonly) := by
  unfold accessorSignature
  dsimp only
  infer_instance

instance nests_typeMember : Nests m .any lo hi next typeMember := by
  unfold typeMember
  dsimp only
  infer_instance

instance nests_typeMembers : Nests m .any lo hi next typeMembers := by
  unfold typeMembers
  infer_instance

instance nests_mappedType : Nests m .any lo hi next mappedType := by
  unfold mappedType
  dsimp only
  refine nests_mark _ (h := nests_then fun n _ => nests_then fun n plus => nests_then fun n minus => ?_)
  split
  all_goals
    refine nests_then fun n _ => nests_then fun n _ => nests_then fun n _ => nests_then fun n found => ?_
    split <;> infer_instance

instance nests_tupleElement : Nests m .any lo hi next tupleElement := by
  unfold tupleElement
  infer_instance

instance nests_tupleType : Nests m .any lo hi next tupleType := by
  unfold tupleType
  dsimp only
  infer_instance

instance nests_templateOf (tagged : Bool) (substitution : Clause Tree) [∀ lo hi next, Nests m .any lo hi next substitution] :
    Nests m .any lo hi next (templateOf tagged substitution) := by
  unfold templateOf
  infer_instance

instance nests_importType : Nests m .any lo hi next importType := by
  unfold importType
  dsimp only
  refine nests_mark _ (h := nests_then fun n _ => nests_then fun n _ => nests_need fun token _ => ?_)
  split <;> infer_instance

instance nests_queryType : Nests m .any lo hi next queryType := by
  unfold queryType
  dsimp only
  infer_instance

instance nests_namedType : Nests m .any lo hi next namedType := by
  unfold namedType
  dsimp only
  infer_instance

instance nests_unexpectedType : Nests m .any lo hi next unexpectedType := by
  unfold unexpectedType
  infer_instance

instance nests_thisType : Nests m .any lo hi next thisType := by
  unfold thisType
  infer_instance

instance nests_wordType (word : String) : Nests m .any lo hi next (wordType word) := by
  unfold wordType
  infer_instance

instance nests_negativeType : Nests m .any lo hi next negativeType := by
  unfold negativeType
  refine nests_mark _ (h := nests_then fun n _ => nests_current fun token => ?_)
  split <;> infer_instance

instance nests_atomicType : Nests m .any lo hi next atomicType := by
  unfold atomicType
  refine nests_mark _ (h := nests_need fun token _ => ?_)
  split <;> infer_instance

instance nests_arrayType : Nests m .any lo hi next arrayType := by
  unfold arrayType
  infer_instance

instance nests_typeOperator : Nests m .any lo hi next typeOperator := by
  unfold typeOperator
  refine nests_mark _ (h := nests_current fun token => ?_)
  split <;> infer_instance

end WebModules.Script
