import WebModules.Proofs.Script.Grammar.Module
import WebModules.Proofs.Script.Nesting.Statement

/-!
Import and export declarations have trees within each other, and so does what any rule of the
grammar reads.
-/

namespace WebModules.Script

open Clause

set_option synthInstance.maxSize 100000000

variable {m : Machine} {g : Grade} {lo hi : Nat} {next : Option Token} [m.Nesting]

instance nests_attributes : Nests m .any lo hi next attributes := by
  unfold attributes
  infer_instance

instance moves_source : Moves m source true := (takes_first (takes_of_moves _)).moves

instance nests_source : Nests m .any lo hi next source := by
  unfold source
  infer_instance

instance nests_sourced (first : Nat) (shape : Nat → Shape) [AtMost first hi] :
    Nests m .solid first hi next (sourced first shape) := by
  unfold sourced
  infer_instance

instance nests_importEquals (first : Nat) [AtMost first hi] :
    Nests m .solid first hi next (importEquals first) := by
  unfold importEquals
  infer_instance

instance nests_importDeclaration (first : Nat) [AtMost first hi] :
    Nests m .solid first hi next (importDeclaration first) := by
  unfold importDeclaration
  dsimp only
  infer_instance

instance nests_exportList (first : Nat) (typeOnly : Bool) [AtMost first hi] :
    Nests m .solid first hi next (exportList first typeOnly) := by
  unfold exportList
  infer_instance

/-- The declaration that an export consists of gives it tokens. -/
instance nests_asDeclaration (first : Nat) (declaration : Tree) [h : AllTrees (Grade.solid.Of first hi) declaration] :
    Nests m .solid first hi next (asDeclaration first declaration) := by
  obtain ⟨lower, filled, upper, -⟩ := AllTrees.tree_iff.1 h
  have : Below first hi := ⟨Nat.lt_of_le_of_lt lower (Nat.lt_of_lt_of_le filled upper)⟩
  unfold asDeclaration
  infer_instance

instance nests_exported (first : Nat) (declaration? : Clause (Option Tree)) (other : Clause Tree)
    [Nests m .solid first hi next declaration?] [∀ n : Onward false hi, Nests m .solid first n.val none other] :
    Nests m .solid first hi next (exported first declaration? other) := by
  unfold exported
  refine nests_next (k := .solid) inferInstance fun n declaration => ?_
  split
  · have := AllTrees.of_eq_some (P := Grade.solid.Of first n.val) ‹_ = some _›
    infer_instance
  · infer_instance

instance nests_exportDefault (first : Nat) [AtMost first hi] :
    Nests m .solid first hi next (exportDefault first) := by
  unfold exportDefault
  infer_instance

instance : Peeks isAsyncFunction := by
  unfold isAsyncFunction
  infer_instance

instance nests_exportedDeclaration? (typeOnly : Bool) : Nests m .solid lo hi next (exportedDeclaration? typeOnly) := by
  have hvariable (next : Option Token) : Nests m .solid hi hi next (do
      if (← isWord "var") || (← isWord "const") then return some (← variableStatement)
      else if ← isWord "let" then
        if ← letDeclares then return some (← variableStatement) else return none
      else return none) := by
    refine nests_ask fun token => nests_known ?_
    split
    · rename_i hword
      have : token.Live := ⟨by rintro rfl; simp at hword⟩
      infer_instance
    refine nests_known ?_
    split
    · rename_i hword
      have : token.Live := ⟨by rintro rfl; simp at hword⟩
      infer_instance
    · infer_instance
  unfold exportedDeclaration?
  refine nests_here (k := .solid) ?_
  infer_instance

instance nests_exportedWord? : Nests m .solid lo hi next exportedWord? := by
  unfold exportedWord?
  refine nests_here (k := .solid) (nests_mark _ (h := nests_need fun token _ => ?_))
  split <;> infer_instance

instance nests_exportedAmbient? : Nests m .solid lo hi next exportedAmbient? := by
  unfold exportedAmbient?
  dsimp only
  refine nests_here (k := .solid) ?_
  infer_instance

instance nests_exportTail (first : Nat) [AtMost first hi] : Nests m .solid first hi next (exportTail first) := by
  unfold exportTail
  dsimp only
  infer_instance

instance nests_exportDeclaration (first : Nat) [AtMost first hi] :
    Nests m .solid first hi next (exportDeclaration first) := by
  unfold exportDeclaration
  infer_instance

instance nests_moduleItem : Nests m .solid lo hi next moduleItem := by
  unfold moduleItem
  refine nests_here (k := .solid) ?_
  infer_instance

instance nests_statement (declarations topLevel : Bool) :
    Nests m .any lo hi next (statement declarations topLevel) := by
  unfold statement
  refine nests_here (k := .solid) ?_
  infer_instance

end WebModules.Script
