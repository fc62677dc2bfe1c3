import WebModules.Proofs.Script.Fits

/-!
Names, keys and patterns have sound trees.
-/

namespace WebModules.Script

open Clause

set_option synthInstance.maxSize 100000000

variable {m : Machine} {e : Extent} [m.Sound]

instance fits_boundName : Fits m e boundName := by
  unfold boundName
  dsimp only
  infer_instance

instance fits_propertyKey : Fits m e propertyKey := by
  unfold propertyKey
  dsimp only
  refine fits_next fun token => ?_
  split <;> infer_instance

instance fits_initialized (first : Nat) (target : Tree) [e.Fit target] :
    Fits m e (initialized first target) := by
  unfold initialized
  dsimp only
  infer_instance

instance fits_bindingElement : Fits m e bindingElement := by
  unfold bindingElement
  infer_instance

instance fits_arrayElements : Fits m e arrayElements := by
  unfold arrayElements
  dsimp only
  refine fits_next (h := fits_loop fun state => ?_) fun _ => inferInstance
  refine fits_next fun finished => fits_next fun closed => ?_
  split
  · infer_instance
  · infer_instance

instance fits_arrayBinding : Fits m e arrayBinding := by
  unfold arrayBinding
  infer_instance

instance fits_propertyBinding : Fits m e propertyBinding := by
  unfold propertyBinding
  dsimp only
  refine fits_next fun first => fits_next fun dots => ?_
  split
  · infer_instance
  · refine fits_next fun key => fits_next fun colon => ?_
    split
    · infer_instance
    · split <;> infer_instance

instance fits_properties (property : Clause Tree) [Fits m e property] :
    Fits m e (properties property) := by
  unfold properties
  infer_instance

instance fits_objectBinding : Fits m e objectBinding := by
  unfold objectBinding
  infer_instance

instance fits_bindingTarget : Fits m e bindingTarget := by
  unfold bindingTarget
  refine fits_next fun token => ?_
  split <;> infer_instance

instance fits_annotation? : Fits m e annotation? := by
  unfold annotation?
  infer_instance

instance fits_withParts (tree : Tree) (parts : List Tree) [htree : e.Fit tree]
    [e.Fit parts] :
    Fits m e (withParts tree parts) := by
  refine ⟨fun c s a t hs _ hr ht => ?_⟩
  unfold withParts at hr
  split at hr
  · cases hr
    infer_instance
  · cases hr
    obtain ⟨shape, first, stop, children⟩ := tree
    have hcount : s.count ≤ e.tokens.length := by
      simpa [hs] using ht.length_le
    have := Fit.of_node htree
    have hparts : e.Fit (children ++ [Tree.ofParts parts]) := inferInstance
    obtain ⟨string, source, call, -⟩ := AllTrees.tree_iff.1 htree
    refine AllTrees.tree_iff.2 (.node string (fun n hn => ?_)
      (fun literal hl => (call literal hl).trans (importedLiteral?_append children parts).symm)
      fun t ht => AllTrees.tree_iff.1 (AllTrees.list_iff.1 hparts t ht))
    obtain ⟨hfirst, hlast, hstop, hstring⟩ := source n hn
    exact ⟨hfirst, Nat.lt_of_lt_of_le hlast (Nat.le_max_left _ _), Nat.max_le.2 ⟨hstop, hcount⟩, hstring⟩

instance fits_parameter : Fits m e parameter := by
  unfold parameter
  dsimp only
  infer_instance

instance fits_restParameter (first : Nat) (typed : Bool) : Fits m e (restParameter first typed) := by
  unfold restParameter
  dsimp only
  infer_instance

instance fits_parametersBy (typed : Bool) (read : Clause Tree) [Fits m e read] :
    Fits m e (parametersBy typed read) := by
  unfold parametersBy
  dsimp only
  refine fits_next (h := fits_loop fun state => ?_) fun _ => inferInstance
  refine fits_next fun finished => fits_next fun closed => ?_
  split
  · infer_instance
  · infer_instance

instance fits_parameters : Fits m e parameters := by
  unfold parameters
  infer_instance

instance fits_constructorParameter : Fits m e constructorParameter := by
  unfold constructorParameter
  infer_instance

instance fits_constructorParameters : Fits m e constructorParameters := by
  unfold constructorParameters
  infer_instance

instance fits_invalidPattern (tree : Tree) : Fits m e (invalidPattern tree) := by
  unfold invalidPattern
  infer_instance

instance fits_restAsPattern (target : Bool) (first stop : Nat) (inner : Tree) [e.Fit inner] :
    Fits m e (restAsPattern target first stop inner) := by
  unfold restAsPattern
  dsimp only
  split
  · infer_instance
  · split <;> infer_instance

instance fits_propertyAsPattern (target : Bool) (object : Nat) (isLast : Bool) (property : Tree)
    [h : e.Fit property] : Fits m e (propertyAsPattern target object isLast property) := by
  obtain ⟨shape, first, stop, children⟩ := property
  have := Fit.of_node h
  unfold propertyAsPattern
  dsimp only
  split
  · infer_instance
  · infer_instance
  · split
    · rename_i value hvalue
      have : e.Fit value := AllTrees.of_eq_some hvalue
      infer_instance
    · infer_instance
  · split
    · rename_i inner hinner
      have : e.Fit inner := AllTrees.of_eq_some hinner
      infer_instance
    · infer_instance
  · infer_instance

theorem fits_propertiesAsPattern (target : Bool) (object : Nat) {properties : List Tree}
    (h : e.Fit properties) : Fits m e (propertiesAsPattern target object properties) := by
  induction properties with
  | nil => exact fits_pure _
  | cons property others ih =>
      obtain ⟨hproperty, hothers⟩ := AllTrees.cons_iff.1 h
      have := ih hothers
      unfold propertiesAsPattern
      infer_instance

instance fits_elementAsPattern (target : Bool) (array : Nat) (element : Tree) [e.Fit element] :
    Fits m e (elementAsPattern target array element) := by
  unfold elementAsPattern
  dsimp only
  infer_instance

theorem fits_elementsAsPattern (target : Bool) (array : Nat) {elements : List Tree}
    (h : e.Fit elements) : Fits m e (elementsAsPattern target array elements) := by
  induction elements with
  | nil => exact fits_pure _
  | cons element others ih =>
      obtain ⟨helement, hothers⟩ := AllTrees.cons_iff.1 h
      have := ih hothers
      unfold elementsAsPattern
      infer_instance

instance fits_asPattern (target element : Bool) (tree : Tree) [h : e.Fit tree] :
    Fits m e (asPattern target element tree) := by
  obtain ⟨shape, first, stop, children⟩ := tree
  have hchildren := Fit.of_node h
  have := fun target object => fits_propertiesAsPattern (m := m) target object hchildren
  have := fun target array => fits_elementsAsPattern (m := m) target array hchildren
  unfold asPattern
  dsimp only
  split
  · infer_instance
  · split
    · split <;> split <;> infer_instance
    · split
      · infer_instance
      · infer_instance
      · infer_instance
      · split
        · obtain ⟨hleft, hvalue⟩ := AllTrees.cons_iff.1 hchildren
          have := Fit.of_assigned hleft
          infer_instance
        · infer_instance
      · infer_instance

end WebModules.Script
