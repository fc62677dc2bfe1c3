import WebModules.Proofs.Script.Later.Reader
import WebModules.Proofs.Script.Spans

/-!
The walk of a module that has more bytes before it is the same, but that all places are later.
-/

namespace WebModules.Script

def Literal.later (n : Nat) (l : Literal) : Literal := ⟨l.value, l.span.later n⟩

def NodeKind.later (n : Nat) : NodeKind → NodeKind
  | .importDeclaration source typeOnly => .importDeclaration (source.later n) typeOnly
  | .exportNamed source typeOnly => .exportNamed (source.map (Literal.later n)) typeOnly
  | .exportAll source typeOnly => .exportAll (source.later n) typeOnly
  | .importCall argument => .importCall (argument.map (Literal.later n))
  | kind => kind

def Record.later (n : Nat) (r : Record) : Record := ⟨r.kind.later n, r.span.later n, r.parent⟩

mutual

def Outline.later (n : Nat) : Outline → Outline
  | .node kind span children => .node (kind.later n) (span.later n) (Outline.laterAll n children)

def Outline.laterAll (n : Nat) : List Outline → List Outline
  | [] => []
  | o :: os => o.later n :: Outline.laterAll n os

end

theorem Outline.laterAll_append (n : Nat) (os others : List Outline) :
    laterAll n (os ++ others) = laterAll n os ++ laterAll n others := by
  induction os with
  | nil => rfl
  | cons o os ih => rw [List.cons_append, laterAll, laterAll, ih, List.cons_append]

mutual

theorem Outline.size_later (n : Nat) (o : Outline) : (o.later n).size = o.size :=
  match o with
  | .node kind span children => by rw [Outline.later, size, size, sizeOfAll_laterAll n children]

theorem Outline.sizeOfAll_laterAll (n : Nat) (os : List Outline) : sizeOfAll (laterAll n os) = sizeOfAll os :=
  match os with
  | [] => rfl
  | o :: os => by rw [laterAll, sizeOfAll, sizeOfAll, size_later n o, sizeOfAll_laterAll n os]

end

mutual

theorem Outline.recordsFrom_later (n start : Nat) (parent : Option Nat) (o : Outline) :
    (o.later n).recordsFrom start parent = (o.recordsFrom start parent).map (Record.later n) :=
  match o with
  | .node kind span children => by
      rw [Outline.later, recordsFrom, recordsFrom, sizeOfAll_laterAll, recordsOf_laterAll n start _ children, List.map_append]
      rfl

theorem Outline.recordsOf_laterAll (n start : Nat) (parent : Option Nat) (os : List Outline) :
    recordsOf start parent (laterAll n os) = (recordsOf start parent os).map (Record.later n) :=
  match os with
  | [] => rfl
  | o :: os => by
      rw [laterAll, recordsOf, recordsOf, recordsFrom_later n start parent o, size_later,
        recordsOf_laterAll n (start + o.size) parent os, List.map_append]

end

/-- A node that a walk records stands among some tokens, or after one. -/
theorem Tree.Nested.lt_of_kind {lo hi : Nat} {t : Tree} {p : Parsed} {kind : NodeKind} (h : t.Nested lo hi)
    (hkind : p.kind? t.shape = some kind) : lo < hi := by
  cases h with
  | part isPart => exact absurd isPart (Bool.eq_false_iff.1 (isPart_of_kind hkind))
  | whole lower order upper filled => omega

theorem Tree.Nested.missing_le {lo hi number : Nat} {t : Tree} (h : t.Nested lo hi)
    (hmissing : t.missing? = some number) : number ≤ hi := by
  induction t using Tree.missing?.induct with
  | case1 first stop children =>
      obtain rfl : first = number := by simpa [missing?] using hmissing
      cases h with
      | part isPart => cases isPart
      | whole _ order upper => exact Nat.le_trans order upper
  | case2 _ _ operand ih | case3 _ operand ih | case5 _ _ _ _ operand ih | case6 _ _ _ _ operand ih =>
      exact ih (h.inside operand (by simp [children])) (by simpa [missing?] using hmissing)
  | case4 _ _ operand hne => simp [missing?, hne] at hmissing
  | case7 t => simp_all [missing?]

namespace Parsed

variable {origin : Nat} {text : List Char} {p : Parsed} (n : Nat)

@[simp] theorem later_tokens : (p.later n).tokens = p.tokens.map (Lexeme.later n) := rfl

theorem span_later {first stop : Nat} (hfirst : first < p.tokens.size) (hstop : stop - 1 < p.tokens.size) :
    (p.later n).span first stop = (p.span first stop).later n := by
  simp [span, hfirst, hstop, Lexeme.later, Span.later]

theorem literal_later {number : Nat} (hnumber : number < p.tokens.size) :
    (p.later n).literal number = (p.literal number).later n := by
  simp [literal, hnumber, Lexeme.later, Literal.later, Span.later]

theorem kind?_later {shape : Shape} (h : ∀ number ∈ shape.source?, number < p.tokens.size) :
    (p.later n).kind? shape = (p.kind? shape).map (NodeKind.later n) := by
  cases shape with
  | importDeclaration source typeOnly | exportAll source typeOnly =>
      simp only [kind?, literal_later n (h source rfl)]
      rfl
  | exportNamed source | importCall source =>
      cases source with
      | none => rfl
      | some source =>
          simp only [kind?, Option.map_some, literal_later n (h source rfl)]
          rfl
  | _ => rfl

theorem missingAt_later (hp : parseFrom origin text = .ok p) {number : Nat} (hsize : 0 < p.tokens.size)
    (hnumber : number ≤ p.tokens.size) :
    (p.later n).missingAt number = p.missingAt number + n := by
  have hoperator : number - 1 < p.tokens.size := by omega
  have ha := Array.getElem?_eq_getElem hoperator
  have hadd (a b : Nat) (hab : a ≤ b) : max (a + n) (b + n - 1) = max a (b - 1) + n := by omega
  unfold missingAt
  simp only [later_tokens, Array.getElem?_map, ha, Option.map_some, Option.getD_some]
  cases hb : p.tokens[number]? with
  | some b => exact hadd _ _ (start_le_start hp (Nat.sub_le number 1) ha hb)
  | none =>
      have hlast := Array.getElem?_eq_getElem (Nat.sub_lt hsize Nat.one_pos)
      have hnumber : number - 1 ≤ p.tokens.size - 1 := by omega
      obtain ⟨_, hlies⟩ := parseFrom_lies hp (Array.mem_of_getElem? ha)
      simp only [Option.map_none, Array.back?_eq_getElem?, Array.size_map, Array.getElem?_map, hlast, Option.map_some,
        Option.getD_some]
      exact hadd _ _ (Nat.le_trans hlies.start_le (stop_le_stop hp hnumber ha hlast))

theorem spanOf_later (hp : parseFrom origin text = .ok p) {t : Tree} {kind : NodeKind} (h : t.Nested 0 p.tokens.size)
    (hkind : p.kind? t.shape = some kind) :
    (p.later n).spanOf t = (p.spanOf t).later n := by
  have hsize := h.lt_of_kind hkind
  have hbounds (hsolid : t.Solid 0 p.tokens.size) : (p.later n).span t.first t.stop = (p.span t.first t.stop).later n :=
    span_later n (Nat.lt_of_lt_of_le hsolid.filled hsolid.upper) (by have := hsolid.upper; omega)
  unfold spanOf
  cases hmissing : t.missing? with
  | none => exact hbounds (h.solid_of_kind hkind hmissing)
  | some number =>
      simp only [missingAt_later n hp hsize (h.missing_le hmissing)]
      by_cases hshape : t.shape = .missing
      · simp [hshape, Span.later]
      · have hsolid : t.Solid 0 p.tokens.size := by
          refine h.solid (Tree.isPart_of_kind hkind) ?_
          cases hs : t.shape <;> simp_all [Shape.mayBeEmpty, kind?]
        simp [hshape, hbounds hsolid, Span.later]

mutual

theorem outlines_later (hp : parseFrom origin text = .ok p) (t : Tree) (h : t.Nested 0 p.tokens.size)
    (hsound : Extent.Sound ⟨p.tokens.toList, 0⟩ t) :
    (p.later n).outlines t = Outline.laterAll n (p.outlines t) :=
  match t, hsound with
  | .node shape first stop children, .node _ source _ parts => by
      have hinner := outlinesOf_later hp children h.inside parts
      have hsource : ∀ number ∈ shape.source?, number < p.tokens.size := by
        intro number hnumber
        obtain ⟨-, hlt, hle, -⟩ := source number hnumber
        simpa using Nat.lt_of_lt_of_le hlt hle
      rw [outlines, outlines, kind?_later n hsource, hinner]
      cases hkind : p.kind? shape with
      | none => rfl
      | some kind => simp only [Option.map_some, spanOf_later n hp h hkind, Outline.laterAll, Outline.later]

theorem outlinesOf_later (hp : parseFrom origin text = .ok p) (ts : List Tree) (h : ∀ t ∈ ts, t.Nested 0 p.tokens.size)
    (hsound : ∀ t ∈ ts, Extent.Sound ⟨p.tokens.toList, 0⟩ t) :
    (p.later n).outlinesOf ts = Outline.laterAll n (p.outlinesOf ts) :=
  match ts with
  | [] => rfl
  | t :: ts => by
      rw [outlinesOf, outlinesOf, Outline.laterAll_append,
        outlines_later hp t (h t (List.mem_cons_self ..)) (hsound t (List.mem_cons_self ..)),
        outlinesOf_later hp ts (fun t ht => h t (List.mem_cons_of_mem _ ht)) fun t ht => hsound t (List.mem_cons_of_mem _ ht)]

end

/-- The outline of a module is the same wherever the module stands. -/
theorem outline_later (hp : parseFrom origin text = .ok p) : (p.later n).outline (origin + n) = (p.outline origin).later n := by
  obtain ⟨items, htree, hitems⟩ := parseFrom_nested hp
  have hsound := (parseFrom_sound hp).children
  rw [htree] at hsound
  have hinner := outlinesOf_later n hp items hitems hsound
  have htree' : (p.later n).tree = .node .module 0 p.tokens.size items := htree
  rw [outline, outline, htree, htree']
  simp only [hinner, Outline.later, later_tokens, Array.getElem?_map, Array.back?_map]
  cases p.tokens[0]? with
  | none => rfl
  | some first => cases p.tokens.back? <;> rfl

end Parsed

/-- A text after a mark of the order of bytes. -/
def marked (text : String) : String := "\ufeff" ++ text

theorem toList_marked (text : String) : (marked text).toList = '\ufeff' :: text.toList := by
  rw [marked, String.toList_append]
  rfl

section Mark

variable {text : String} (h : text.toList.head? ≠ some '\ufeff')

include h

theorem withoutByteOrderMark_marked : withoutByteOrderMark text.toList = (0, text.toList) ∧
    withoutByteOrderMark (marked text).toList = (3, text.toList) := by
  refine ⟨Rewrite.withoutByteOrderMark_append (.inl rfl) h, ?_⟩
  rw [toList_marked]
  exact Rewrite.withoutByteOrderMark_append (.inr rfl) h

theorem parse_marked : parse (marked text) = (parse text).map (Parsed.later 3) := by
  obtain ⟨hplain, hmarked⟩ := withoutByteOrderMark_marked h
  have hlater := parseFrom_later 3 0 text.toList
  unfold parse
  rw [hplain, hmarked]
  dsimp only
  rw [hlater]
  cases parseFrom 0 text.toList with
  | ok p => rfl
  | error fault => rfl

theorem walk_marked : walk (marked text) = (walk text).map (List.map (Record.later 3)) := by
  obtain ⟨hplain, hmarked⟩ := withoutByteOrderMark_marked h
  unfold walk
  rw [parse_marked h, hplain, hmarked]
  cases hparse : parse text with
  | error e => rfl
  | ok p =>
      have hp : parseFrom 0 text.toList = .ok p := by
        unfold parse at hparse
        rw [hplain] at hparse
        dsimp only at hparse
        split at hparse
        · cases hparse
          assumption
        · cases hparse
      refine congrArg Except.ok ((congrArg Outline.records (Parsed.outline_later 3 hp)).trans ?_)
      exact Outline.recordsFrom_later 3 0 none _

end Mark

end WebModules.Script
