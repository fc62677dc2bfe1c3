import WebModules.Proofs.Script.Grammar.Pattern

/-!
Types have sound trees.
-/

namespace WebModules.Script

open Clause

set_option synthInstance.maxSize 100000000

variable {m : Machine} {e : Extent} [m.Sound]

instance fits_commaSeparated {α : Type} [Holds α] (atEnd : Clause Bool) (item : Clause α)
    [Fits m e item] : Fits m e (commaSeparated atEnd item) := by
  unfold commaSeparated
  dsimp only
  infer_instance

instance fits_typeAfter? (mark : Sign) : Fits m e (typeAfter? mark) := by
  unfold typeAfter?
  infer_instance

instance fits_typeArguments : Fits m e typeArguments := by
  unfold typeArguments
  dsimp only
  infer_instance

instance fits_typeArgumentsHere : Fits m e typeArgumentsHere := by
  unfold typeArgumentsHere
  infer_instance

instance fits_typeArguments? : Fits m e typeArguments? := by
  unfold typeArguments?
  infer_instance

instance fits_typeParameter : Fits m e typeParameter := by
  unfold typeParameter
  infer_instance

instance fits_typeParameters : Fits m e typeParameters := by
  unfold typeParameters
  dsimp only
  infer_instance

instance fits_typeParameters? : Fits m e typeParameters? := by
  unfold typeParameters?
  infer_instance

instance fits_result (mark : Sign) : Fits m e (result mark) := by
  unfold result
  dsimp only
  infer_instance

instance fits_result? : Fits m e result? := by
  unfold result?
  infer_instance

instance fits_signatureParameters : Fits m e signatureParameters := by
  unfold signatureParameters
  dsimp only
  infer_instance

instance fits_functionType : Fits m e functionType := by
  unfold functionType
  infer_instance

instance fits_plainType : Fits m e plainType := by
  unfold plainType
  dsimp only
  infer_instance

instance fits_typeBody : Fits m e typeBody := by
  unfold typeBody
  infer_instance

instance fits_indexSignature? : Fits m e indexSignature? := by
  unfold indexSignature?
  dsimp only
  infer_instance

instance fits_callSignature : Fits m e callSignature := by
  unfold callSignature
  infer_instance

instance fits_memberKey : Fits m e memberKey := by
  unfold memberKey
  refine fits_next fun bracket => ?_
  split
  · infer_instance
  · refine fits_next fun token => ?_
    split <;> infer_instance

instance fits_propertySignature (first : Nat) (readonly : Bool) :
    Fits m e (propertySignature first readonly) := by
  unfold propertySignature
  dsimp only
  infer_instance

instance fits_accessorSignature (first : Nat) (readonly : Bool) :
    Fits m e (accessorSignature first readonly) := by
  unfold accessorSignature
  dsimp only
  infer_instance

instance fits_typeMember : Fits m e typeMember := by
  unfold typeMember
  dsimp only
  infer_instance

instance fits_typeMembers : Fits m e typeMembers := by
  unfold typeMembers
  infer_instance

instance fits_mappedType : Fits m e mappedType := by
  unfold mappedType
  dsimp only
  infer_instance

instance fits_tupleElement : Fits m e tupleElement := by
  unfold tupleElement
  infer_instance

instance fits_tupleType : Fits m e tupleType := by
  unfold tupleType
  dsimp only
  infer_instance

instance fits_templateOf (tagged : Bool) (substitution : Clause Tree) [Fits m e substitution] :
    Fits m e (templateOf tagged substitution) := by
  unfold templateOf
  infer_instance

instance fits_importType : Fits m e importType := by
  unfold importType
  dsimp only
  refine fits_next fun first => fits_next fun _ => fits_next fun _ => fits_next fun token => ?_
  split <;> infer_instance

instance fits_queryType : Fits m e queryType := by
  unfold queryType
  dsimp only
  infer_instance

instance fits_namedType : Fits m e namedType := by
  unfold namedType
  dsimp only
  infer_instance

instance fits_unexpectedType : Fits m e unexpectedType := by
  unfold unexpectedType
  infer_instance

instance fits_thisType : Fits m e thisType := by
  unfold thisType
  infer_instance

instance fits_wordType (word : String) : Fits m e (wordType word) := by
  unfold wordType
  infer_instance

instance fits_negativeType : Fits m e negativeType := by
  unfold negativeType
  refine fits_next fun first => fits_next fun _ => fits_next fun token => ?_
  split <;> infer_instance

instance fits_atomicType : Fits m e atomicType := by
  unfold atomicType
  refine fits_next fun first => fits_next fun token => ?_
  split <;> infer_instance

instance fits_arrayType : Fits m e arrayType := by
  unfold arrayType
  infer_instance

instance fits_typeOperator : Fits m e typeOperator := by
  unfold typeOperator
  refine fits_next fun first => fits_next fun token => ?_
  split <;> infer_instance

end WebModules.Script
