import WebModules.Proofs.Script.Walk

/-!
What a module depends on, told by its tree alone: which of its nodes refer to another module, and by
the numbers of which tokens.  The tokens then tell the specifiers and the places.
-/

namespace WebModules.Script

/-- A node that refers to another module by the token `source`.  It takes the tokens from `first` up
to `stop`. -/
structure Use where
  kind : DependencyKind
  source : Nat
  first : Nat
  stop : Nat
  deriving DecidableEq, Repr

/-- How a node of a shape refers to another module, and by which token. -/
def Shape.reference? : Shape → Option (DependencyKind × Nat)
  | .importDeclaration source false => some (.staticImport, source)
  | .exportNamed (some source) _ => some (.namedExport, source)
  | .exportAll source _ => some (.exportAll, source)
  | .importCall (some argument) => some (.dynamicImport, argument)
  | _ => none

/-- The reference of a node, with the tokens that the node takes. -/
def Shape.use? (shape : Shape) (first stop : Nat) : Option Use :=
  shape.reference?.map fun reference => ⟨reference.1, reference.2, first, stop⟩

mutual

/-- The references of a tree, those of each node after those within it. -/
def Tree.uses : Tree → List Use
  | .node shape first stop children => usesOf children ++ (shape.use? first stop).toList

def Tree.usesOf : List Tree → List Use
  | [] => []
  | t :: ts => t.uses ++ usesOf ts

end

namespace Outline

mutual

/-- What the nodes of an outline depend on, each node after those within it. -/
def dependencies : Outline → List Dependency
  | node kind span children =>
    dependenciesOf children ++ (Dependency.ofRecord? ⟨kind, span, none⟩).toList

def dependenciesOf : List Outline → List Dependency
  | [] => []
  | o :: os => o.dependencies ++ dependenciesOf os

end

theorem dependenciesOf_append (os others : List Outline) :
    dependenciesOf (os ++ others) = dependenciesOf os ++ dependenciesOf others := by
  induction os with
  | nil => rfl
  | cons o os ih => rw [List.cons_append, dependenciesOf, dependenciesOf, ih, List.append_assoc]

mutual

theorem ofWalk_recordsFrom (start : Nat) (parent : Option Nat) (o : Outline) :
    Dependency.ofWalk (o.recordsFrom start parent) = o.dependencies :=
  match o with
  | node kind span children => by
      have hchildren := ofWalk_recordsOf start
        (some (start + sizeOfAll children)) children
      rw [recordsFrom, dependencies, ← hchildren, Dependency.ofWalk, List.filterMap_append]
      refine congrArg (List.append _) ?_
      have hparent : Dependency.ofRecord? ⟨kind, span, parent⟩ =
          Dependency.ofRecord? ⟨kind, span, none⟩ := rfl
      cases h : Dependency.ofRecord? ⟨kind, span, none⟩ <;> simp [hparent, h]

theorem ofWalk_recordsOf (start : Nat) (parent : Option Nat) (os : List Outline) :
    Dependency.ofWalk (recordsOf start parent os) = dependenciesOf os :=
  match os with
  | [] => rfl
  | o :: os => by
      rw [recordsOf, dependenciesOf, Dependency.ofWalk, List.filterMap_append,
        ← ofWalk_recordsFrom start parent o, ← ofWalk_recordsOf (start + o.size) parent os]
      rfl

end

end Outline

namespace Parsed

/-- What a node depends on that refers to another module. -/
def dependency (p : Parsed) (use : Use) : Dependency :=
  ⟨(p.literal use.source).value, use.kind, p.span use.first use.stop, (p.literal use.source).span⟩

variable {p : Parsed}

theorem ofRecord?_kind? (shape : Shape) (first stop : Nat) (children : List Tree) :
    (p.kind? shape).bind (fun kind =>
        Dependency.ofRecord? ⟨kind, p.spanOf (.node shape first stop children), none⟩) =
      (shape.use? first stop).map p.dependency := by
  cases shape with
  | importDeclaration source typeOnly => cases typeOnly <;> rfl
  | exportNamed source => cases source <;> rfl
  | importCall argument => cases argument <;> rfl
  | _ => rfl

mutual

theorem dependenciesOf_outlines (t : Tree) :
    Outline.dependenciesOf (p.outlines t) = t.uses.map p.dependency :=
  match t with
  | .node shape first stop children => by
      have hinner := dependenciesOf_outlinesOf children
      have hshape := ofRecord?_kind? (p := p) shape first stop children
      rw [outlines, Tree.uses, List.map_append, ← hinner, ← Option.toList_map, ← hshape]
      cases p.kind? shape with
      | none => simp
      | some kind => simp [Outline.dependenciesOf, Outline.dependencies]

theorem dependenciesOf_outlinesOf (ts : List Tree) :
    Outline.dependenciesOf (p.outlinesOf ts) = (Tree.usesOf ts).map p.dependency :=
  match ts with
  | [] => rfl
  | t :: ts => by
      rw [outlinesOf, Outline.dependenciesOf_append, Tree.usesOf, List.map_append,
        dependenciesOf_outlines t, dependenciesOf_outlinesOf ts]

end

/-- The dependencies of a module are the references of its tree, as its tokens tell them. -/
theorem ofWalk_outline (origin : Nat) (p : Parsed) :
    Dependency.ofWalk (p.outline origin).records =
      (Tree.usesOf p.tree.children).map p.dependency := by
  rw [Outline.records, Outline.ofWalk_recordsFrom, ← dependenciesOf_outlinesOf]
  obtain ⟨⟨shape, first, stop, items⟩, tokens⟩ := p
  exact List.append_nil _

end Parsed

/-- A reference to a string among the tokens that the node takes. -/
structure Use.Sound (e : Extent) (use : Use) : Prop where
  first_le : use.first ≤ use.source
  lt_stop : use.source < use.stop
  stop_le : use.stop ≤ e.tokens.length
  string : e.IsString use.source

mutual

theorem Extent.Sound.uses {e : Extent} (t : Tree) (h : e.Sound t) : ∀ use ∈ t.uses, use.Sound e :=
  match t, h with
  | .node shape first stop children, .node _ source _ parts => by
      intro use huse
      rw [Tree.uses, List.mem_append, Option.mem_toList] at huse
      obtain huse | huse := huse
      · exact Extent.Sound.usesOf children parts use huse
      · obtain ⟨⟨kind, number⟩, hreference, rfl⟩ := Option.map_eq_some_iff.1 huse
        have hsource : number ∈ shape.source? := by
          unfold Shape.reference? at hreference
          split at hreference <;> cases hreference <;> rfl
        obtain ⟨hfirst, hlast, hstop, hstring⟩ := source number hsource
        exact ⟨hfirst, hlast, hstop, hstring⟩

theorem Extent.Sound.usesOf {e : Extent} (ts : List Tree) (h : ∀ t ∈ ts, e.Sound t) :
    ∀ use ∈ Tree.usesOf ts, use.Sound e :=
  match ts, h with
  | [], _ => by simp [Tree.usesOf]
  | t :: ts, h => by
      intro use huse
      rw [Tree.usesOf, List.mem_append] at huse
      obtain huse | huse := huse
      · exact Extent.Sound.uses t (h t (List.mem_cons_self ..)) use huse
      · exact Extent.Sound.usesOf ts (fun t ht => h t (List.mem_cons_of_mem _ ht)) use huse

end

section Places

variable {origin : Nat} {text : List Char} {p : Parsed} (h : parseFrom origin text = .ok p)
  {u v : Use}

include h

/-- The tokens of a reference: the first of its node, the string, and the last of its node. -/
theorem Use.Sound.exists_tokens (hu : u.Sound ⟨p.tokens.toList, 0⟩) :
    ∃ a l b, p.tokens[u.first]? = some a ∧ p.tokens[u.source]? = some l ∧
      p.tokens[u.stop - 1]? = some b ∧ a.start ≤ l.start ∧ l.start < l.stop ∧ l.stop ≤ b.stop ∧
      (p.dependency u).span = ⟨a.start, b.stop⟩ := by
  obtain ⟨hfirst, hlast, hstop, l, hl, hstring⟩ := hu
  have hl : p.tokens[u.source]? = some l := by simpa using hl
  obtain ⟨a, b, ha, hb, hstart, hend⟩ := exists_ends h hfirst hlast (by simpa using hstop) hl
  obtain ⟨_, hlies⟩ := parseFrom_lies h (Array.mem_of_getElem? hl)
  exact ⟨a, l, b, ha, hl, hb, hstart, (hlies.stands hstring).start_lt, hend, Parsed.span_eq ha hb⟩

theorem source_lt_first (hu : u.Sound ⟨p.tokens.toList, 0⟩) (hv : v.Sound ⟨p.tokens.toList, 0⟩)
    (hle : (p.dependency u).span.stop ≤ (p.dependency v).span.start) : u.source < v.first := by
  obtain ⟨_, l, b, -, hl, -, -, hlt, hstop, hspan⟩ := hu.exists_tokens h
  obtain ⟨a, _, _, ha, -, -, -, -, -, hspan'⟩ := hv.exists_tokens h
  rw [hspan, hspan'] at hle
  refine Nat.lt_of_not_le fun hfirst => ?_
  have := start_le_start h hfirst ha hl
  dsimp only at hle
  omega

theorem start_lt_start (hu : u.Sound ⟨p.tokens.toList, 0⟩) (hv : v.Sound ⟨p.tokens.toList, 0⟩)
    (hlt : u.source < v.first) : (p.dependency u).span.start < (p.dependency v).span.start := by
  obtain ⟨_, l, _, -, hl, -, hstart, hstop, -, hspan⟩ := hu.exists_tokens h
  obtain ⟨a, _, _, ha, -, -, -, -, -, hspan'⟩ := hv.exists_tokens h
  rw [hspan, hspan']
  have := parseFrom_stop_le h hlt hl ha
  dsimp only
  omega

/-- The order of nodes that do not overlap is that of their tokens. -/
theorem start_le_iff (hu : u.Sound ⟨p.tokens.toList, 0⟩) (hv : v.Sound ⟨p.tokens.toList, 0⟩)
    (hapart : u.source < v.first ∨ v.source < u.first) :
    (p.dependency u).span.start ≤ (p.dependency v).span.start ↔ u.source < v.first := by
  constructor
  · intro hle
    refine hapart.resolve_right fun hlt => ?_
    have := start_lt_start h hv hu hlt
    omega
  · intro hlt
    exact Nat.le_of_lt (start_lt_start h hu hv hlt)

end Places

end WebModules.Script
