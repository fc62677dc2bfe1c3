import WebModules.Proofs.Script.Nests

/-!
Names, keys and patterns have trees within each other.
-/

namespace WebModules.Script

open Clause

set_option synthInstance.maxSize 100000000

variable {m : Machine} {g : Grade} {lo hi : Nat} {next : Option Token} [m.Nesting]

instance moves_identifier (yieldAllowed : Bool) : Moves m (identifier yieldAllowed) true := by
  refine (takes_need fun token _ => ?_).moves
  split
  · exact takes_peek fun _ => takes_first (takes_take _)
  · exact takes_fail _ _

instance moves_anyWord : Moves m anyWord true := by
  refine (takes_need fun token _ => ?_).moves
  split
  · exact takes_first (takes_take _)
  · exact takes_fail _ _

instance moves_stringToken : Moves m stringToken true := by
  refine (takes_peek fun _ => takes_need fun token _ => ?_).moves
  split
  · exact takes_first (takes_take _)
  · exact takes_first (takes_fail _ _)

instance moves_propertyKey : Moves m propertyKey true := by
  refine (takes_need fun token _ => ?_).moves
  split
  all_goals first | exact takes_first (takes_take _) | exact takes_fail _ _

instance moves_hashedName : Moves m hashedName true := by
  refine (takes_later fun _ => takes_later fun _ => takes_later fun _ => ?_).moves
  exact takes_ite (takes_of_moves _) (takes_later fun _ => takes_of_moves _)

instance moves_boundName : Moves m boundName true :=
  (takes_later fun _ => takes_first (takes_of_moves (identifier true))).moves

instance nests_boundName [g.Weaker .loose] : Nests m g lo hi next boundName := by
  unfold boundName
  dsimp only
  infer_instance

/-- The expressions in a key in brackets start after the bracket. -/
instance nests_propertyKey : Nests m .any lo hi next propertyKey := by
  unfold propertyKey
  dsimp only
  refine nests_need fun token _ => ?_
  split
  · infer_instance
  · infer_instance
  · infer_instance
  · infer_instance
  · refine nests_then fun n _ => nests_here (k := .any) ?_
    infer_instance
  · infer_instance

instance nests_initialized (first : Nat) (target : Tree) [AllTrees (Grade.any.Of lo hi) target] :
    Nests m .any lo hi next (initialized first target) := by
  unfold initialized
  dsimp only
  infer_instance

instance nests_bindingElement : Nests m .any lo hi next bindingElement := by
  unfold bindingElement
  infer_instance

instance nests_arrayElements : Nests m .any lo hi next arrayElements := by
  unfold arrayElements
  dsimp only
  refine nests_next (k := .any) (nests_loop fun n state => ?_) fun _ _ => inferInstance
  refine nests_peek _ _ (h := fun finished => nests_peek _ _ (h := fun closed => ?_))
  split
  · infer_instance
  · infer_instance

instance nests_arrayBinding [g.Weaker .loose] : Nests m g lo hi next arrayBinding := by
  unfold arrayBinding
  infer_instance

instance nests_propertyBinding : Nests m .any lo hi next propertyBinding := by
  unfold propertyBinding
  dsimp only
  refine nests_mark _ (h := nests_eat _ _ (h := fun n => ?_) (e := ?_))
  · infer_instance
  · refine nests_next (k := .any) inferInstance fun n ⟨key, hkey⟩ => ?_
    cases key <;> infer_instance

instance nests_properties (property : Clause Tree) [∀ lo hi next, Nests m .any lo hi next property] :
    Nests m .any lo hi next (properties property) := by
  unfold properties
  infer_instance

instance nests_objectBinding [g.Weaker .loose] : Nests m g lo hi next objectBinding := by
  unfold objectBinding
  infer_instance

instance nests_bindingTarget [g.Weaker .loose] : Nests m g lo hi next bindingTarget := by
  unfold bindingTarget
  refine nests_need fun token _ => ?_
  split <;> infer_instance

instance nests_annotation? : Nests m .any lo hi next annotation? := by
  unfold annotation?
  infer_instance

instance (tree : Tree) (parts : List Tree) : Reads (withParts tree parts) .loose := ⟨⟩

instance nests_withParts (tree : Tree) (parts : List Tree) [htree : AllTrees (Grade.loose.Of lo hi) tree]
    [hparts : AllTrees (Grade.any.Of lo hi) parts] [g.Weaker .loose] : Nests m g lo hi next (withParts tree parts) := by
  obtain ⟨shape, first, stop, children⟩ := tree
  obtain ⟨isPart, inside⟩ := AllTrees.tree_iff.1 htree
  have : shape.Part := ⟨isPart⟩
  have : AllTrees (Grade.any.Of lo hi) children := AllTrees.list_iff.2 fun t ht => AllTrees.tree_iff.2 (inside t ht)
  unfold withParts
  dsimp only [Tree.shape, Tree.first, Tree.stop, Tree.children]
  infer_instance

instance nests_parameter : Nests m .any lo hi next parameter := by
  unfold parameter
  dsimp only
  infer_instance

instance nests_restParameter (first : Nat) (typed : Bool) : Nests m .any lo hi next (restParameter first typed) := by
  unfold restParameter
  dsimp only
  infer_instance

instance nests_parametersBy (typed : Bool) (read : Clause Tree)
    [∀ lo hi next, Nests m .any lo hi next read] : Nests m .any lo hi next (parametersBy typed read) := by
  unfold parametersBy
  dsimp only
  refine nests_next (k := .any) (nests_loop fun n state => ?_) fun _ _ => inferInstance
  refine nests_peek _ _ (h := fun finished => nests_peek _ _ (h := fun closed => ?_))
  split
  · infer_instance
  · infer_instance

instance nests_parameters : Nests m .any lo hi next parameters := by
  unfold parameters
  infer_instance

instance nests_constructorParameter : Nests m .any lo hi next constructorParameter := by
  unfold constructorParameter
  infer_instance

instance nests_constructorParameters : Nests m .any lo hi next constructorParameters := by
  unfold constructorParameters
  infer_instance

instance nests_invalidPattern (tree : Tree) [g.Weaker .loose] : Nests m g lo hi next (invalidPattern tree) := by
  unfold invalidPattern
  infer_instance

instance nests_restAsPattern (target : Bool) (first stop : Nat) (inner : Tree)
    [AllTrees (Grade.any.Of lo hi) inner] : Nests m .any lo hi next (restAsPattern target first stop inner) := by
  unfold restAsPattern
  dsimp only
  split
  · infer_instance
  · split <;> infer_instance

instance nests_propertyAsPattern (target : Bool) (object : Nat) (isLast : Bool) (property : Tree)
    [h : AllTrees (Grade.any.Of lo hi) property] :
    Nests m .any lo hi next (propertyAsPattern target object isLast property) := by
  obtain ⟨shape, first, stop, children⟩ := property
  have := AllTrees.of_node h
  unfold propertyAsPattern
  dsimp only
  split
  · infer_instance
  · infer_instance
  · split
    · rename_i value hvalue
      have : AllTrees (Grade.any.Of lo hi) value := AllTrees.of_eq_some hvalue
      infer_instance
    · infer_instance
  · split
    · rename_i inner hinner
      have : AllTrees (Grade.any.Of lo hi) inner := AllTrees.of_eq_some hinner
      infer_instance
    · infer_instance
  · infer_instance

theorem nests_propertiesAsPattern (target : Bool) (object : Nat) {properties : List Tree}
    (h : AllTrees (Grade.any.Of lo hi) properties) :
    Nests m .any lo hi next (propertiesAsPattern target object properties) := by
  induction properties generalizing hi next with
  | nil => exact nests_pure _
  | cons property others ih =>
      obtain ⟨hproperty, hothers⟩ := AllTrees.cons_iff.1 h
      unfold propertiesAsPattern
      refine nests_next (k := .any) inferInstance fun n pattern => ?_
      have : Nests m .any lo n.val none (propertiesAsPattern target object others) := ih inferInstance
      infer_instance

instance nests_elementAsPattern (target : Bool) (array : Nat) (element : Tree)
    [AllTrees (Grade.any.Of lo hi) element] : Nests m .any lo hi next (elementAsPattern target array element) := by
  unfold elementAsPattern
  dsimp only
  infer_instance

theorem nests_elementsAsPattern (target : Bool) (array : Nat) {elements : List Tree}
    (h : AllTrees (Grade.any.Of lo hi) elements) :
    Nests m .any lo hi next (elementsAsPattern target array elements) := by
  induction elements generalizing hi next with
  | nil => exact nests_pure _
  | cons element others ih =>
      obtain ⟨helement, hothers⟩ := AllTrees.cons_iff.1 h
      have (n : Onward false hi) : Nests m .any lo n.val none (elementsAsPattern target array others) :=
        ih inferInstance
      unfold elementsAsPattern
      infer_instance

instance nests_asPattern (target element : Bool) (tree : Tree) [h : AllTrees (Grade.any.Of lo hi) tree]
    [g.Weaker .loose] : Nests m g lo hi next (asPattern target element tree) := by
  obtain ⟨shape, first, stop, children⟩ := tree
  have hchildren := AllTrees.of_node h
  have (target : Bool) (object : Nat) :
      Nests m .any lo hi next (propertiesAsPattern target object children) :=
    nests_propertiesAsPattern target object hchildren
  have (n : Onward false hi) (target : Bool) (object : Nat) :
      Nests m .any lo n.val none (propertiesAsPattern target object children) :=
    nests_propertiesAsPattern target object inferInstance
  have (target : Bool) (array : Nat) :
      Nests m .any lo hi next (elementsAsPattern target array children) :=
    nests_elementsAsPattern target array hchildren
  have (n : Onward false hi) (target : Bool) (array : Nat) :
      Nests m .any lo n.val none (elementsAsPattern target array children) :=
    nests_elementsAsPattern target array inferInstance
  unfold asPattern
  dsimp only
  split
  · infer_instance
  · split
    · split <;> split <;> infer_instance
    · split
      · infer_instance
      · infer_instance
      · infer_instance
      · split
        · obtain ⟨hleft, hvalue⟩ := AllTrees.cons_iff.1 hchildren
          have := AllTrees.of_assigned hleft
          infer_instance
        · infer_instance
      · infer_instance

end WebModules.Script
