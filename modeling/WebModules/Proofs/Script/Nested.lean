import WebModules.Proofs.Script.Holds

/-!
Trees whose nodes lie within each other: each node of a tree takes some of the tokens of the node
around it.  A node that only keeps the parts of another one together has no tokens of its own, and
one that stands for a missing operand takes none, but stands after the operator.
-/

namespace WebModules.Script

/-- Shapes of nodes that only keep parts together: their tokens do not matter. -/
def Shape.isPart : Shape → Bool
  | .group | .hole | .pattern | .boundName _ | .arrayPattern | .objectPattern | .restPattern
  | .initializedPattern | .targetPattern | .invalidPattern | .spread | .shorthand _ | .property
  | .methodProperty | .initializedProperty _ | .initializedShorthand _ | .name _ => true
  | _ => false

/-- Shapes of nodes that may have no tokens. -/
def Shape.mayBeEmpty : Shape → Bool
  | .missing => true
  | .assigned shape => shape.mayBeEmpty
  | _ => false

class Shape.Part (shape : Shape) : Prop where
  isPart_eq : shape.isPart = true

/-- The nodes of a tree lie within each other and between two numbers of tokens. -/
inductive Tree.Nested : Nat → Nat → Tree → Prop
  | part {lo hi : Nat} {shape : Shape} {first stop : Nat} {children : List Tree}
      (isPart : shape.isPart) (inside : ∀ t ∈ children, t.Nested lo hi) :
      Nested lo hi (.node shape first stop children)
  | whole {lo hi : Nat} {shape : Shape} {first stop : Nat} {children : List Tree} (lower : lo ≤ first)
      (order : first ≤ stop) (upper : stop ≤ hi) (filled : shape.mayBeEmpty ∧ lo < first ∨ first < stop)
      (inside : ∀ t ∈ children, t.Nested first stop) : Nested lo hi (.node shape first stop children)

/-- A tree with nodes within each other that has tokens of its own. -/
structure Tree.Solid (lo hi : Nat) (t : Tree) : Prop where
  lower : lo ≤ t.first
  filled : t.first < t.stop
  upper : t.stop ≤ hi
  inside : ∀ c ∈ t.children, c.Nested t.first t.stop

/-- A tree with nodes within each other that only keeps parts together. -/
structure Tree.Loose (lo hi : Nat) (t : Tree) : Prop where
  isPart : t.shape.isPart
  inside : ∀ c ∈ t.children, c.Nested lo hi

namespace Tree

variable {lo hi lo' hi' : Nat} {t : Tree}

theorem Nested.mono (h : t.Nested lo hi) (hlo : lo' ≤ lo) (hhi : hi ≤ hi') : t.Nested lo' hi' := by
  induction h with
  | part isPart _ ih => exact .part isPart fun t ht => ih t ht hlo hhi
  | whole lower order upper filled inside =>
      exact .whole (Nat.le_trans hlo lower) order (Nat.le_trans upper hhi)
        (filled.imp_left (And.imp_right (Nat.lt_of_le_of_lt hlo))) inside

/-- An expression that is assigned to covers what it covers when it is not. -/
theorem Nested.of_assigned {shape : Shape} {first stop : Nat} {children : List Tree}
    (h : (node (.assigned shape) first stop children).Nested lo hi) : (node shape first stop children).Nested lo hi := by
  cases h with
  | part isPart => cases isPart
  | whole lower order upper filled inside => exact .whole lower order upper filled inside

theorem Nested.assigned (h : t.Nested lo hi) (hpart : t.shape.isPart = false) :
    (t.reshape (.assigned t.shape)).Nested lo hi := by
  cases h with
  | part isPart => exact absurd isPart (Bool.eq_false_iff.1 hpart)
  | whole lower order upper filled inside => exact .whole lower order upper filled inside

theorem Solid.nested (h : t.Solid lo hi) : t.Nested lo hi := by
  obtain ⟨shape, first, stop, children⟩ := t
  exact .whole h.lower (Nat.le_of_lt h.filled) h.upper (.inr h.filled) h.inside

theorem Loose.nested (h : t.Loose lo hi) : t.Nested lo hi := by
  obtain ⟨shape, first, stop, children⟩ := t
  exact .part h.isPart h.inside

theorem Nested.inside (h : t.Nested lo hi) : ∀ c ∈ t.children, c.Nested lo hi := by
  intro c hc
  cases h with
  | part _ inside => exact inside c hc
  | whole lower _ upper _ inside => exact (inside c hc).mono lower upper

/-- A tree that is no part and cannot be empty has tokens. -/
theorem Nested.solid (h : t.Nested lo hi) (hpart : t.shape.isPart = false) (hempty : t.shape.mayBeEmpty = false) :
    t.Solid lo hi := by
  cases h with
  | part isPart => exact absurd isPart (Bool.eq_false_iff.1 hpart)
  | whole lower _ upper filled inside =>
      exact ⟨lower, filled.resolve_left (by simp_all [shape]), upper, inside⟩

theorem Solid.mono (h : t.Solid lo hi) (hlo : lo' ≤ lo) (hhi : hi ≤ hi') : t.Solid lo' hi' :=
  ⟨Nat.le_trans hlo h.lower, h.filled, Nat.le_trans h.upper hhi, h.inside⟩

theorem Solid.tight (h : t.Solid lo hi) : t.Solid t.first t.stop :=
  ⟨Nat.le_refl _, h.filled, Nat.le_refl _, h.inside⟩

theorem Loose.mono (h : t.Loose lo hi) (hlo : lo' ≤ lo) (hhi : hi ≤ hi') : t.Loose lo' hi' :=
  ⟨h.isPart, fun c hc => (h.inside c hc).mono hlo hhi⟩

end Tree

/-- How much is known of a tree: nothing but that its nodes lie within each other, or that it has
tokens of its own, or that it only keeps parts together. -/
inductive Grade
  | any | solid | loose

/-- The trees of a grade between two numbers of tokens. -/
def Grade.Of : Grade → Nat → Nat → Tree → Prop
  | .any => Tree.Nested
  | .solid => Tree.Solid
  | .loose => Tree.Loose

/-- Trees of the second grade are also of the first one. -/
class Grade.Weaker (g k : Grade) : Prop where
  eq_or : g = .any ∨ g = k

instance (g : Grade) : Grade.Weaker g g := ⟨.inr rfl⟩
instance (g : Grade) : Grade.Weaker .any g := ⟨.inl rfl⟩

theorem Grade.Of.mono {g k : Grade} [hg : g.Weaker k] {lo hi lo' hi' : Nat} {t : Tree} (h : k.Of lo hi t)
    (hlo : lo' ≤ lo) (hhi : hi ≤ hi') : g.Of lo' hi' t := by
  obtain rfl | rfl := hg.eq_or
  · cases k with
    | any => exact Tree.Nested.mono h hlo hhi
    | solid => exact (Tree.Solid.nested h).mono hlo hhi
    | loose => exact (Tree.Loose.nested h).mono hlo hhi
  · cases g with
    | any => exact Tree.Nested.mono h hlo hhi
    | solid => exact Tree.Solid.mono h hlo hhi
    | loose => exact Tree.Loose.mono h hlo hhi

/-! Numbers of tokens, one after the other.  Each clause that is read leads from one to the next. -/

/-- So many tokens as may have been read after a clause that was read when `a` were; `strict` tells
that the clause takes some. -/
structure Onward (strict : Bool) (a : Nat) where
  val : Nat
  le : a ≤ val
  lt : strict → a < val

class AtMost (a b : Nat) : Prop where
  le : a ≤ b

class Below (a b : Nat) : Prop where
  lt : a < b

section Counts

variable {strict : Bool} {a b : Nat}

instance (a : Nat) : AtMost a a := ⟨Nat.le_refl a⟩

instance AtMost.onward (n : Onward strict b) [h : AtMost a b] : AtMost a n.val := ⟨Nat.le_trans h.le n.le⟩

instance (priority := low) AtMost.of_below [h : Below a b] : AtMost a b := ⟨Nat.le_of_lt h.lt⟩

instance Below.of_strict (n : Onward true b) [h : AtMost a b] : Below a n.val := ⟨Nat.lt_of_le_of_lt h.le (n.lt rfl)⟩

instance Below.onward (n : Onward strict b) [h : Below a b] : Below a n.val := ⟨Nat.lt_of_lt_of_le h.lt n.le⟩

instance (a : Nat) : Below a (a + 1) := ⟨Nat.lt_succ_self a⟩

instance AtMost.succ [h : Below a b] : AtMost (a + 1) b := ⟨h.lt⟩

end Counts

namespace AllTrees

variable {strict : Bool} {g k : Grade} {lo hi lo' hi' : Nat} {α : Type} [Holds α]

theorem weaken {a : α} (h : AllTrees (k.Of lo hi) a) [g.Weaker k] (hlo : lo' ≤ lo) (hhi : hi ≤ hi') :
    AllTrees (g.Of lo' hi') a :=
  ⟨fun t ht => (h.sound t ht).mono hlo hhi⟩

/-- What has been read before is also of a weaker grade, between numbers further apart. -/
instance fitted (a : Fitted (k.Of lo' hi') α) [g.Weaker k] [h : AtMost lo lo'] [h' : AtMost hi' hi] :
    AllTrees (g.Of lo hi) a.val := a.fit.weaken h.le h'.le

instance (priority := low) onward (a : α) (n : Onward strict hi) [ha : AllTrees (g.Of lo hi) a] :
    AllTrees (g.Of lo n.val) a := ha.weaken (Nat.le_refl lo) n.le

instance (priority := low) of_solid (a : α) [ha : AllTrees (Grade.solid.Of lo hi) a] :
    AllTrees (Grade.any.Of lo hi) a := ha.weaken (Nat.le_refl lo) (Nat.le_refl hi)

instance (priority := low) of_loose (a : α) [ha : AllTrees (Grade.loose.Of lo hi) a] :
    AllTrees (Grade.any.Of lo hi) a := ha.weaken (Nat.le_refl lo) (Nat.le_refl hi)

instance children (t : Tree) [h : AllTrees (Grade.any.Of lo hi) t] : AllTrees (Grade.any.Of lo hi) t.children :=
  list_iff.2 fun c hc => tree_iff.2 (Tree.Nested.inside (tree_iff.1 h) c hc)

section Node

variable (shape : Shape) (first stop : Nat) (children : List Tree)

instance solidNode [hlo : AtMost lo first] [hlt : Below first stop] [hhi : AtMost stop hi]
    [h : AllTrees (Grade.any.Of first stop) children] [g.Weaker .solid] :
    AllTrees (g.Of lo hi) (Tree.node shape first stop children) :=
  weaken (k := .solid) (tree_iff.2 ⟨Nat.le_refl first, hlt.lt, hhi.le, fun c hc => tree_iff.1 (list_iff.1 h c hc)⟩)
    hlo.le (Nat.le_refl hi)

instance looseNode [hs : shape.Part] [h : AllTrees (Grade.any.Of lo hi) children] [g.Weaker .loose] :
    AllTrees (g.Of lo hi) (Tree.node shape first stop children) :=
  weaken (k := .loose) (tree_iff.2 ⟨hs.isPart_eq, fun c hc => tree_iff.1 (list_iff.1 h c hc)⟩)
    (Nat.le_refl lo) (Nat.le_refl hi)

/-- An operand that is missing takes no tokens. -/
instance missingNode [hlo : Below lo first] [hhi : AtMost first hi] :
    AllTrees (Grade.any.Of lo hi) (Tree.node .missing first first []) :=
  tree_iff.2 (.whole (Nat.le_of_lt hlo.lt) (Nat.le_refl first) hhi.le (.inl ⟨rfl, hlo.lt⟩) (by simp))

end Node

theorem of_node {shape : Shape} {first stop : Nat} {children : List Tree}
    (h : AllTrees (Grade.any.Of lo hi) (Tree.node shape first stop children)) :
    AllTrees (Grade.any.Of lo hi) children :=
  AllTrees.children (Tree.node shape first stop children)

theorem of_assigned {shape : Shape} {first stop : Nat} {children : List Tree}
    (h : AllTrees (Grade.any.Of lo hi) (Tree.node (.assigned shape) first stop children)) :
    AllTrees (Grade.any.Of lo hi) (Tree.node shape first stop children) :=
  tree_iff.2 (Tree.Nested.of_assigned (tree_iff.1 h))

theorem assigned {t : Tree} (h : AllTrees (Grade.any.Of lo hi) t) (hpart : t.shape.isPart = false) :
    AllTrees (Grade.any.Of lo hi) (t.reshape (.assigned t.shape)) :=
  tree_iff.2 (Tree.Nested.assigned (tree_iff.1 h) hpart)

instance ofParts (ts : List Tree) [AllTrees (Grade.any.Of lo hi) ts] :
    AllTrees (Grade.any.Of lo hi) (Tree.ofParts ts) := by
  have : Shape.group.Part := ⟨rfl⟩
  exact looseNode .group 0 0 ts

instance reshape (shape : Shape) (t : Tree) [h : AllTrees (Grade.solid.Of lo hi) t] [g.Weaker .solid] :
    AllTrees (g.Of lo hi) (t.reshape shape) := by
  obtain ⟨_, first, stop, children⟩ := t
  obtain ⟨lower, filled, upper, inside⟩ := tree_iff.1 h
  refine weaken (k := .solid) ?_ (Nat.le_refl lo) (Nat.le_refl hi)
  exact tree_iff.2 ⟨lower, filled, upper, inside⟩

instance reshape_loose (shape : Shape) (t : Tree) [hs : shape.Part] [h : AllTrees (Grade.any.Of lo hi) t]
    [g.Weaker .loose] : AllTrees (g.Of lo hi) (t.reshape shape) := by
  obtain ⟨_, first, stop, children⟩ := t
  have := of_node h
  exact looseNode shape first stop children

instance asStatementFrom (t : Tree) [h : AllTrees (Grade.solid.Of lo hi) t] :
    AllTrees (Grade.solid.Of lo hi) (t.asStatementFrom lo) := by
  obtain ⟨_, first, stop, children⟩ := t
  obtain ⟨lower, filled, upper, inside⟩ := tree_iff.1 h
  exact tree_iff.2 ⟨Nat.le_refl lo, Nat.lt_of_le_of_lt lower filled, upper,
    fun c hc => (inside c hc).mono lower (Nat.le_refl stop)⟩

end AllTrees

/-! The shapes that only keep parts together. -/

section Part

instance : Shape.group.Part := ⟨rfl⟩
instance : Shape.hole.Part := ⟨rfl⟩
instance : Shape.pattern.Part := ⟨rfl⟩
instance : Shape.arrayPattern.Part := ⟨rfl⟩
instance : Shape.objectPattern.Part := ⟨rfl⟩
instance : Shape.restPattern.Part := ⟨rfl⟩
instance : Shape.initializedPattern.Part := ⟨rfl⟩
instance : Shape.targetPattern.Part := ⟨rfl⟩
instance : Shape.invalidPattern.Part := ⟨rfl⟩
instance : Shape.spread.Part := ⟨rfl⟩
instance : Shape.property.Part := ⟨rfl⟩
instance : Shape.methodProperty.Part := ⟨rfl⟩
instance (name : String) : (Shape.boundName name).Part := ⟨rfl⟩
instance (name : String) : (Shape.shorthand name).Part := ⟨rfl⟩
instance (name : String) : (Shape.initializedProperty name).Part := ⟨rfl⟩
instance (name : String) : (Shape.initializedShorthand name).Part := ⟨rfl⟩
instance (p : Prop) [Decidable p] (a b : Shape) [ha : a.Part] [hb : b.Part] : (if p then a else b).Part := by
  split
  · exact ha
  · exact hb

end Part

end WebModules.Script
