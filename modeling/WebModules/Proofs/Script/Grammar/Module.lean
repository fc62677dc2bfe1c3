import WebModules.Proofs.Script.Grammar.Statement

/-!
Import and export declarations have sound trees, and so does what any rule of the grammar reads.
-/

namespace WebModules.Script

open Clause

set_option synthInstance.maxSize 100000000

variable {m : Machine} {e : Extent} [m.Sound]

instance fits_attributes : Fits m e attributes := by
  unfold attributes
  infer_instance

/-- A declaration with a source reads the source as one of its tokens. -/
theorem fits_sourced (first : Nat) (shape : Nat → Shape) [hf : e.From first]
    (hstring : ∀ n, (shape n).isString = false) (hsource : ∀ n, (shape n).source? = some n)
    (himported : ∀ n, (shape n).imported? = none) : Fits m e (sourced first shape) := by
  refine ⟨fun c s a t hs hl hr ht => ?_⟩
  obtain ⟨⟨number, parts⟩, u, hu, hr⟩ := Machine.exec_bind hr
  obtain ⟨number, v, hv, hu⟩ := Machine.exec_bind hu
  have hrest : Advances v u := m.advances_of_read hu
  obtain ⟨parts, w, hw, hu⟩ := Machine.exec_bind hu
  obtain ⟨_, x, hx, hu⟩ := Machine.exec_bind hu
  cases hu
  cases hr
  obtain ⟨rfl, hcount, lexeme, htaken, hlexeme⟩ := stringToken_read hv
  have hvs : v.count = v.taken.length := by simp [hcount, htaken, hs]
  have hprefix := (List.reverse_prefix.2 hrest.taken).trans ht
  have hwx := m.advances_of_read hx
  have hparts := (fits_attributes (m := m) (e := e)).fit c v _ w hvs (by omega) hw
    ((List.reverse_prefix.2 hwx.taken).trans ht)
  have hstop := hrest.count_le hvs
  have hlength : t.count ≤ e.tokens.length := by simpa [hrest.count hvs] using ht.length_le
  refine AllTrees.tree_iff.2 (.node (by simp [hstring]) (fun n hn => ?_) (by simp [himported])
    fun t ht => AllTrees.tree_iff.1 (AllTrees.list_iff.1 hparts t ht))
  obtain rfl : s.count = n := by simpa [hsource] using hn
  have hfirst := hf.le
  rw [htaken] at hprefix
  exact ⟨by omega, by omega, hlength, hs ▸ isString_of_taken hprefix hlexeme⟩

instance fits_sourced_importDeclaration (first : Nat) (typeOnly : Bool) [e.From first] :
    Fits m e (sourced first fun number => .importDeclaration number typeOnly) :=
  fits_sourced first _ (fun _ => rfl) (fun _ => rfl) fun _ => rfl

instance fits_sourced_exportAll (first : Nat) (typeOnly : Bool) [e.From first] :
    Fits m e (sourced first fun number => .exportAll number typeOnly) :=
  fits_sourced first _ (fun _ => rfl) (fun _ => rfl) fun _ => rfl

instance fits_sourced_exportNamed (first : Nat) (typeOnly : Bool) [e.From first] :
    Fits m e (sourced first fun number => .exportNamed (some number) typeOnly) :=
  fits_sourced first _ (fun _ => rfl) (fun _ => rfl) fun _ => rfl

instance fits_importEquals (first : Nat) : Fits m e (importEquals first) := by
  unfold importEquals
  infer_instance

instance fits_importDeclaration (first : Nat) [e.From first] :
    Fits m e (importDeclaration first) := by
  unfold importDeclaration
  dsimp only
  infer_instance

instance fits_exportList (first : Nat) (typeOnly : Bool) [e.From first] :
    Fits m e (exportList first typeOnly) := by
  unfold exportList
  infer_instance

instance fits_asDeclaration (first : Nat) (declaration : Tree) [e.Fit declaration] :
    Fits m e (asDeclaration first declaration) := by
  unfold asDeclaration
  infer_instance

instance fits_exported (first : Nat) (declaration? : Clause (Option Tree)) (other : Clause Tree)
    [Fits m e declaration?] [Fits m e other] : Fits m e (exported first declaration? other) := by
  unfold exported
  refine fits_next fun declaration => ?_
  split
  · have := AllTrees.of_eq_some (P := e.Sound) ‹_ = some _›
    infer_instance
  · infer_instance

instance fits_exportDefault (first : Nat) : Fits m e (exportDefault first) := by
  unfold exportDefault
  infer_instance

instance fits_exportedDeclaration? (typeOnly : Bool) : Fits m e (exportedDeclaration? typeOnly) := by
  unfold exportedDeclaration?
  infer_instance

instance fits_exportedWord? : Fits m e exportedWord? := by
  unfold exportedWord?
  refine fits_next fun first => fits_next fun token => ?_
  split <;> infer_instance

instance fits_exportedAmbient? : Fits m e exportedAmbient? := by
  unfold exportedAmbient?
  dsimp only
  infer_instance

instance fits_exportTail (first : Nat) [e.From first] : Fits m e (exportTail first) := by
  unfold exportTail
  dsimp only
  infer_instance

instance fits_exportDeclaration (first : Nat) [e.From first] :
    Fits m e (exportDeclaration first) := by
  unfold exportDeclaration
  infer_instance

instance fits_moduleItem : Fits m e moduleItem := by
  unfold moduleItem
  exact fits_mark fun first _ => inferInstance

instance fits_statement (declarations topLevel : Bool) :
    Fits m e (statement declarations topLevel) := by
  unfold statement
  infer_instance

instance fits_module : Fits m e module := by
  unfold module
  dsimp only
  infer_instance

end WebModules.Script
