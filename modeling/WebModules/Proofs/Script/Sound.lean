import WebModules.Proofs.Script.Holds
import WebModules.Proofs.Script.Steps

/-!
Trees that refer to the right tokens: what stands for a string in a tree is the number of a string
token, and what a declaration or call has as its source is a string token within it.  `Fits` says
that all trees a clause yields are of this kind; the rules here show it for a clause from its parts.
-/

namespace WebModules.Script

/-- The tokens of a text in the end, and the number of the first of them that matters. -/
structure Extent where
  tokens : List Lexeme
  least : Nat

def Extent.IsString (e : Extent) (number : Nat) : Prop :=
  ∃ lexeme, e.tokens[number]? = some lexeme ∧ lexeme.token = .string

/-- The string token that names what a node of a shape depends on. -/
def Shape.source? : Shape → Option Nat
  | .importCall source => source
  | .importDeclaration source _ => some source
  | .exportNamed source _ => source
  | .exportAll source _ => some source
  | .assigned shape => shape.source?
  | _ => none

/-- What a call of `import` is taken to name a module by, for the shapes of such calls. -/
def Shape.imported? : Shape → Option (Option Nat)
  | .importCall argument => some argument
  | .assigned shape => shape.imported?
  | _ => none

def Shape.isString : Shape → Bool
  | .string => true
  | .assigned shape => shape.isString
  | _ => false

inductive Extent.Sound (e : Extent) : Tree → Prop
  | node {shape : Shape} {first stop : Nat} {children : List Tree}
      (string : shape.isString → e.least ≤ first ∧ e.IsString first)
      (source : ∀ n ∈ shape.source?, first ≤ n ∧ n < stop ∧ stop ≤ e.tokens.length ∧ e.IsString n)
      (call : ∀ literal ∈ shape.imported?, literal = Clause.importedLiteral? children)
      (parts : ∀ t ∈ children, e.Sound t) : e.Sound (.node shape first stop children)

/-- What is kept behind the parts of a node is not the first of them. -/
theorem Clause.importedLiteral?_append (parts others : List Tree) :
    importedLiteral? (parts ++ [Tree.ofParts others]) = importedLiteral? parts := by
  cases parts with
  | nil => rfl
  | cons t ts =>
      obtain ⟨shape, first, stop, children⟩ := t
      cases shape <;> rfl

/-- Soundness from some token on is soundness from an earlier one on. -/
theorem Extent.Sound.of_le {e : Extent} {n : Nat} (hn : n ≤ e.least) {t : Tree} (h : e.Sound t) :
    Extent.Sound ⟨e.tokens, n⟩ t := by
  induction h with
  | node string source call _ ih => exact .node (fun hs => (string hs).imp_left (Nat.le_trans hn)) source call ih

theorem Extent.Sound.children {e : Extent} {t : Tree} (h : e.Sound t) :
    ∀ c ∈ t.children, e.Sound c := by
  obtain ⟨-, -, -, h⟩ := h
  exact h

/-- All trees in a value are sound. -/
abbrev Extent.Fit (e : Extent) {α : Type} [Holds α] (a : α) : Prop := AllTrees e.Sound a

/-- A value with sound trees. -/
abbrev Extent.Fitted (e : Extent) (α : Type) [Holds α] : Type := Script.Fitted e.Sound α

instance Fit.children {e : Extent} (t : Tree) [h : e.Fit t] : e.Fit t.children :=
  AllTrees.list_iff.2 fun c hc => AllTrees.tree_iff.2 ((AllTrees.tree_iff.1 h).children c hc)

/-- Shapes of nodes that neither stand for a string nor have a source nor are calls of `import`. -/
class Shape.Plain (shape : Shape) : Prop where
  isString_eq : shape.isString = false
  source_eq : shape.source? = none
  imported_eq : shape.imported? = none

/-- Nodes of plain shapes are as sound as their parts. -/
instance Fit.node {e : Extent} (shape : Shape) (first stop : Nat) (children : List Tree)
    [h : shape.Plain] [hc : e.Fit children] : e.Fit (Tree.node shape first stop children) :=
  AllTrees.tree_iff.2 (.node (by simp [h.isString_eq]) (by simp [h.source_eq]) (by simp [h.imported_eq])
    fun t ht => AllTrees.tree_iff.1 (AllTrees.list_iff.1 hc t ht))

instance Fit.ofParts {e : Extent} (ts : List Tree) [e.Fit ts] : e.Fit (Tree.ofParts ts) := by
  have : Shape.group.Plain := ⟨rfl, rfl, rfl⟩
  exact Fit.node .group 0 0 ts

theorem Fit.of_node {e : Extent} {shape : Shape} {first stop : Nat} {children : List Tree}
    (h : e.Fit (Tree.node shape first stop children)) : e.Fit children :=
  Fit.children (Tree.node shape first stop children)

theorem Fit.of_assigned {e : Extent} {shape : Shape} {first stop : Nat} {children : List Tree}
    (h : e.Fit (Tree.node (.assigned shape) first stop children)) :
    e.Fit (Tree.node shape first stop children) := by
  obtain ⟨string, source, call, parts⟩ := AllTrees.tree_iff.1 h
  exact AllTrees.tree_iff.2 (.node string source call parts)

instance Fit.assigned {e : Extent} (t : Tree) [h : e.Fit t] :
    e.Fit (t.reshape (.assigned t.shape)) := by
  obtain ⟨shape, first, stop, children⟩ := t
  obtain ⟨string, source, call, parts⟩ := AllTrees.tree_iff.1 h
  exact AllTrees.tree_iff.2 (.node string source call parts)

instance Fit.reshape {e : Extent} (shape : Shape) (t : Tree) [h : shape.Plain] [ht : e.Fit t] :
    e.Fit (t.reshape shape) := by
  obtain ⟨_, first, stop, children⟩ := t
  have := Fit.of_node ht
  exact Fit.node shape first stop children

instance Fit.asStatementFrom {e : Extent} (first : Nat) (t : Tree) [ht : e.Fit t] :
    e.Fit (t.asStatementFrom first) := by
  obtain ⟨_, start, stop, children⟩ := t
  have := Fit.of_node ht
  have : Shape.statement.Plain := ⟨rfl, rfl, rfl⟩
  exact Fit.node .statement first stop children

end WebModules.Script
