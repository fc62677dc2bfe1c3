import WebModules.Dependency
import WebModules.Proofs.Script.Tokens

/-!
What a module depends on stands in its text: the literal of every dependency is a string of the
text, with its quotes, and the node that the dependency was found in is around it.
-/

namespace WebModules.Script

open Lexer

/-- The string that a node of a walk refers to another module by. -/
def NodeKind.literal? : NodeKind → Option Literal
  | .importDeclaration source _ => some source
  | .exportNamed source _ => source
  | .exportAll source _ => some source
  | .importCall argument => argument
  | _ => none

/-- The string of a node, if it refers to one, is a token within the node. -/
def Parsed.Sourced (p : Parsed) (kind : NodeKind) (span : Span) : Prop :=
  ∀ literal ∈ kind.literal?, ∃ first number stop, first ≤ number ∧ number < stop ∧
    stop ≤ p.tokens.size ∧ Extent.IsString ⟨p.tokens.toList, 0⟩ number ∧
    literal = p.literal number ∧ span = p.span first stop

/-- An outline all of whose nodes satisfy a predicate. -/
inductive Outline.Every (P : NodeKind → Span → Prop) : Outline → Prop
  | node {kind : NodeKind} {span : Span} {children : List Outline} (here : P kind span)
      (inside : ∀ o ∈ children, o.Every P) : Every P (.node kind span children)

variable {P : NodeKind → Span → Prop}

mutual

theorem Outline.Every.recordsFrom (o : Outline) (h : o.Every P) (start : Nat)
    (parent : Option Nat) : ∀ r ∈ o.recordsFrom start parent, P r.kind r.span :=
  match o, h with
  | .node kind span children, .node here inside => by
      intro r hr
      rw [Outline.recordsFrom, List.mem_append, List.mem_singleton] at hr
      obtain hr | rfl := hr
      · exact Outline.Every.recordsOf children inside _ _ r hr
      · exact here

theorem Outline.Every.recordsOf (os : List Outline) (h : ∀ o ∈ os, o.Every P) (start : Nat)
    (parent : Option Nat) : ∀ r ∈ Outline.recordsOf start parent os, P r.kind r.span :=
  match os, h with
  | [], _ => by simp [Outline.recordsOf]
  | o :: os, h => by
      intro r hr
      rw [Outline.recordsOf, List.mem_append] at hr
      obtain hr | hr := hr
      · exact Outline.Every.recordsFrom o (h o (List.mem_cons_self ..)) _ _ r hr
      · exact Outline.Every.recordsOf os (fun o ho => h o (List.mem_cons_of_mem _ ho)) _ _ r hr

end

namespace Parsed

variable {p : Parsed}

theorem literal?_of_kind? {shape : Shape} {kind : NodeKind} (h : p.kind? shape = some kind) :
    kind.literal? = shape.source?.map p.literal := by
  cases shape <;> simp_all [kind?, NodeKind.literal?, Shape.source?] <;> subst h <;> rfl

theorem spanOf_source {shape : Shape} {number : Nat} (h : shape.source? = some number) (first stop : Nat)
    (children : List Tree) : p.spanOf (.node shape first stop children) = p.span first stop := by
  cases shape <;> simp_all [Shape.source?, spanOf, Tree.missing?, Tree.first, Tree.stop]

mutual

theorem outlines_sourced (t : Tree) (h : Extent.Sound ⟨p.tokens.toList, 0⟩ t) :
    ∀ o ∈ p.outlines t, o.Every p.Sourced :=
  match t, h with
  | .node shape first stop children, .node _ source _ parts => by
      have hinner := outlinesOf_sourced children parts
      rw [outlines]
      split
      · rename_i kind hkind
        intro o ho
        obtain rfl := List.mem_singleton.1 ho
        refine .node (fun literal hl => ?_) hinner
        rw [literal?_of_kind? hkind] at hl
        obtain ⟨number, hn, rfl⟩ := Option.map_eq_some_iff.1 hl
        obtain ⟨hfirst, hlast, hstop, hstring⟩ := source number hn
        exact ⟨first, number, stop, hfirst, hlast, by simpa using hstop, hstring, rfl, spanOf_source hn ..⟩
      · exact hinner

theorem outlinesOf_sourced (ts : List Tree) (h : ∀ t ∈ ts, Extent.Sound ⟨p.tokens.toList, 0⟩ t) :
    ∀ o ∈ p.outlinesOf ts, o.Every p.Sourced :=
  match ts, h with
  | [], _ => by simp [outlinesOf]
  | t :: ts, h => by
      intro o ho
      rw [outlinesOf, List.mem_append] at ho
      obtain ho | ho := ho
      · exact outlines_sourced t (h t (List.mem_cons_self ..)) o ho
      · exact outlinesOf_sourced ts (fun t ht => h t (List.mem_cons_of_mem _ ht)) o ho

end

theorem span_eq {first stop : Nat} {a b : Lexeme} (ha : p.tokens[first]? = some a)
    (hb : p.tokens[stop - 1]? = some b) : p.span first stop = ⟨a.start, b.stop⟩ := by
  simp [span, ha, hb]

theorem literal_eq {number : Nat} {lexeme : Lexeme} (h : p.tokens[number]? = some lexeme) :
    p.literal number = ⟨String.ofList lexeme.value, ⟨lexeme.start, lexeme.stop⟩⟩ := by
  simp [literal, h]

end Parsed

/-- The bytes of a span when `n` more bytes stand before them. -/
def Span.later (n : Nat) (s : Span) : Span := ⟨s.start + n, s.stop + n⟩

/-- A place in a text that has `n` more bytes before it. -/
def Cursor.later (n : Nat) (c : Cursor) : Cursor := ⟨c.rest, c.pos + n⟩

theorem Cursor.Reaches.later {c d : Cursor} (h : c.Reaches d) (n : Nat) :
    (c.later n).Reaches (d.later n) := by
  obtain ⟨cs, hr, hp⟩ := h
  exact ⟨cs, hr, by simp only [Cursor.later]; omega⟩

/-- A literal of the text that begins at `c`: it begins with a quote and ends after that. -/
def Literal.Stands (c : Cursor) (span : Span) : Prop :=
  ∃ b d, c.Reaches b ∧ Quotes b d ∧ span = ⟨b.pos, d.pos⟩

theorem Literal.Stands.start_lt {c : Cursor} {span : Span} (h : Literal.Stands c span) :
    span.start < span.stop := by
  obtain ⟨b, d, -, ⟨quote, r, -, hr, hd⟩, rfl⟩ := h
  have hnext : b.next.pos = b.pos + quote.utf8Size := by
    unfold Cursor.next
    rw [hr]
  have := hd.pos_le
  have := quote.utf8Size_pos
  dsimp only
  omega

theorem Literal.Stands.later {c : Cursor} {span : Span} (h : Literal.Stands c span) (n : Nat) :
    Literal.Stands (c.later n) (span.later n) := by
  obtain ⟨b, d, hb, ⟨quote, r, hquote, hr, hd⟩, rfl⟩ := h
  refine ⟨b.later n, d.later n, hb.later n, ⟨quote, r, hquote, hr, ?_⟩, rfl⟩
  have hnext : (b.later n).next = b.next.later n := by
    unfold Cursor.next Cursor.later
    rw [hr]
    simp only [Cursor.mk.injEq, true_and]
    omega
  rw [hnext]
  exact hd.later n

theorem Literal.Stands.of_reaches {c d : Cursor} {span : Span} (h : Literal.Stands d span)
    (hd : c.Reaches d) : Literal.Stands c span := by
  obtain ⟨b, e, hb, hq, rfl⟩ := h
  exact ⟨b, e, hd.trans hb, hq, rfl⟩

theorem Lexer.Lies.stands {lexeme : Lexeme} {c d : Cursor} (h : Lies lexeme c d)
    (ht : lexeme.token = .string) : Literal.Stands c ⟨lexeme.start, lexeme.stop⟩ := by
  obtain ⟨b, hb, -, hs, he, hq⟩ := h
  exact ⟨b, d, hb, (hq ht).quotes, by rw [hs, he]⟩

/-- The literal of a node with a source is one of the text, within the node. -/
theorem Parsed.Sourced.stands {origin : Nat} {text : List Char} {p : Parsed}
    (hp : parseFrom origin text = .ok p) {kind : NodeKind} {span : Span} (h : p.Sourced kind span)
    {literal : Literal} (hl : literal ∈ kind.literal?) :
    Literal.Stands ⟨text, origin⟩ literal.span ∧ span.contains literal.span := by
  obtain ⟨first, number, stop, hfirst, hlast, hstop, ⟨lexeme, hn, htoken⟩, rfl, rfl⟩ := h literal hl
  have hn : p.tokens[number]? = some lexeme := by simpa using hn
  obtain ⟨d, hd⟩ := parseFrom_lies hp (Array.mem_of_getElem? hn)
  obtain ⟨a, b, ha, hb, hbefore, hafter⟩ := exists_ends hp hfirst hlast hstop hn
  rw [Parsed.literal_eq hn, Parsed.span_eq ha hb]
  exact ⟨hd.stands htoken, by simp [Span.contains, hbefore, hafter]⟩

theorem Outline.records_sourced {origin : Nat} {p : Parsed}
    (h : Extent.Sound ⟨p.tokens.toList, 0⟩ p.tree) :
    ∀ r ∈ (p.outline origin).records, p.Sourced r.kind r.span := by
  have hitems := Parsed.outlinesOf_sourced p.tree.children h.children
  refine Outline.Every.recordsFrom _ ?_ 0 none
  obtain ⟨tree, tokens⟩ := p
  obtain ⟨shape, first, stop, items⟩ := tree
  exact .node (by simp [Parsed.Sourced, NodeKind.literal?]) hitems

end WebModules.Script
