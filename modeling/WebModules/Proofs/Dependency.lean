import WebModules.Proofs.Script.Denotes
import WebModules.Proofs.Script.Spans

/-!
What a module depends on: the nodes of its syntax tree that refer to another module, in postorder.  Each of them holds
the string that it refers by, and the text spells that string between quotes.
-/

namespace WebModules.Script

open Lexer Cursor

/-- How a node refers to another module, and by which token.  Imports of types alone do not refer to one, and calls of
`import` do if their first argument is a string. -/
def Tree.reference? : Tree → Option (DependencyKind × Nat)
  | .node (.importDeclaration source false) _ _ _ => some (.staticImport, source)
  | .node (.exportNamed (some source) _) _ _ _ => some (.namedExport, source)
  | .node (.exportAll source _) _ _ _ => some (.exportAll, source)
  | .node (.importCall _) _ _ (.node .string number _ _ :: _) => some (.dynamicImport, number)
  | _ => Option.none

/-- The reference of a node, with the tokens that the node takes. -/
def Tree.use? (t : Tree) : Option Use := t.reference?.map fun reference => ⟨reference.1, reference.2, t.first, t.stop⟩

/-- The reference of the node at a place. -/
def Parsed.useAt? (p : Parsed) (place : List Nat) : Option Use := (p.tree.at? place).bind Tree.use?

section References

variable {e : Extent} {p : Parsed} {t u : Tree} {place : List Nat}

theorem Extent.Sound.at? (h : e.Sound t) (hu : t.at? place = some u) : e.Sound u :=
  Tree.of_at? (fun _ ht => ht.children) h hu

/-- The string that the shape of a call of `import` tells is its first argument. -/
theorem Extent.Sound.reference?_eq (h : e.Sound t) : t.reference? = t.shape.reference? := by
  obtain ⟨shape, first, stop, children⟩ := t
  obtain ⟨-, -, call, -⟩ := h
  cases shape with
  | importCall argument =>
      obtain rfl := call argument rfl
      cases children with
      | nil => rfl
      | cons child children =>
          obtain ⟨shape, number, _, _⟩ := child
          cases shape <;> rfl
  | importDeclaration source typeOnly => cases typeOnly <;> rfl
  | exportNamed source typeOnly => cases source <;> rfl
  | _ => rfl

theorem Extent.Sound.use?_eq (h : e.Sound t) : t.use? = t.shape.use? t.first t.stop := by
  rw [Tree.use?, h.reference?_eq, Shape.use?]

theorem Extent.Sound.use (h : e.Sound t) {use : Use} (huse : t.use? = some use) : use.Sound e := by
  refine h.uses t use ?_
  obtain ⟨shape, first, stop, children⟩ := t
  rw [h.use?_eq] at huse
  rw [Tree.uses, List.mem_append, Option.mem_toList]
  exact .inr huse

theorem ofRecord?_eq_none {kind : NodeKind} {span span' : Span} {parent parent' : Option Nat}
    (h : Dependency.ofRecord? ⟨kind, span, parent⟩ = none) : Dependency.ofRecord? ⟨kind, span', parent'⟩ = none := by
  unfold Dependency.ofRecord? at h ⊢
  split at h
  all_goals first | rfl | cases h

theorem ofRecord?_eq (h : Extent.Sound ⟨p.tokens.toList, 0⟩ t) {record : Record}
    (hkind : p.kind? t.shape = some record.kind) (hspan : p.tokens ≠ #[] → record.span = p.spanOf t) :
    Dependency.ofRecord? record = t.use?.map p.dependency := by
  obtain ⟨kind, span, parent⟩ := record
  obtain ⟨shape, first, stop, children⟩ := t
  have huse := Parsed.ofRecord?_kind? (p := p) shape first stop children
  dsimp only [Tree.shape] at hkind hspan
  rw [hkind, Option.bind_some] at huse
  rw [h.use?_eq, Tree.shape, Tree.first, Tree.stop]
  -- the module itself takes no bytes where there are no tokens, but then no node has a string
  by_cases hempty : p.tokens = #[]
  · have hnone : shape.use? first stop = none := by
      refine Option.eq_none_iff_forall_ne_some.2 fun use hu => ?_
      obtain ⟨-, -, -, lexeme, hlexeme, -⟩ := h.use (h.use?_eq.trans hu)
      simp [hempty] at hlexeme
    rw [hnone] at huse ⊢
    exact ofRecord?_eq_none huse
  · rw [← huse, hspan hempty]
    rfl

theorem Postorder.ofWalk {places : List (List Nat)} {records : List Record} (h : Postorder p places records)
    (hsound : Extent.Sound ⟨p.tokens.toList, 0⟩ p.tree) :
    Dependency.ofWalk records = (places.filterMap p.useAt?).map p.dependency := by
  have heach : records.map Dependency.ofRecord? = places.map fun place => (p.useAt? place).map p.dependency := by
    refine List.ext_getElem? fun i => ?_
    rw [List.getElem?_map, List.getElem?_map]
    cases hr : records[i]? with
    | none =>
        have : places[i]? = none := by
          rw [List.getElem?_eq_none_iff] at hr ⊢
          rwa [h.length_eq]
        rw [this]
        rfl
    | some record =>
        obtain ⟨place, ha⟩ := h.exists_place hr
        obtain ⟨t, ht, hkind, hspan⟩ := h.node i place record ha hr
        rw [ha, Option.map_some, Option.map_some, Parsed.useAt?, ht, Option.bind_some,
          ofRecord?_eq (hsound.at? ht) hkind hspan]
  calc Dependency.ofWalk records
      = (records.map Dependency.ofRecord?).filterMap id := by rw [List.filterMap_map]; rfl
    _ = (places.map fun place => (p.useAt? place).map p.dependency).filterMap id := by rw [heach]
    _ = places.filterMap fun place => (p.useAt? place).map p.dependency := by rw [List.filterMap_map]; rfl
    _ = (places.filterMap p.useAt?).map p.dependency := List.map_filterMap.symm

end References

/-- A string as a text spells it.  Its quotes are of one kind, and the second one may only be missing where the line
ends.  Unless it has an octal escape it stands for code points, and if none of these is a surrogate, its value has them for
its characters. -/
structure Literal.Occurrence (text : String) (l : Literal) where
  before : List Char
  quote : Char
  inside : List Char
  closing : List Char
  after : List Char
  isQuote : quote = '\'' ∨ quote = '"'
  text_eq : text.toList = before ++ (quote :: (inside ++ closing) ++ after)
  start_eq : l.span.start = utf8Length before
  stop_eq : l.span.stop = l.span.start + utf8Length (quote :: (inside ++ closing))
  interior_eq : Quoted.interior quote (inside ++ closing ++ after) = (inside, closing ++ after)
  closed : closing = [quote] ∨ closing = [] ∧ ∀ c ∈ after.head?, c = '\n' ∨ c = '\r'
  decode_eq : l.value = String.ofList (Quoted.decode inside)
  denoted : Quoted.octals inside = [] → ∃ ns, Quoted.Denotes inside ns
  value_eq : ∀ ns, Quoted.Denotes inside ns → (∀ n ∈ ns, n.isValidChar) → l.value.toList.map Char.toNat = ns

namespace Literal.Occurrence

variable {text : String} {l : Literal} (o : l.Occurrence text)

theorem charAt_start : Rewrite.charAt text.toList l.span.start = o.quote := by
  rw [o.text_eq, o.start_eq]
  exact Rewrite.charAt_append _ _ _

theorem charAt_last (h : o.closing = [o.quote]) : Rewrite.charAt text.toList (l.span.stop - 1) = o.quote := by
  have hstop : l.span.stop - 1 = utf8Length (o.before ++ o.quote :: o.inside) := by
    rw [o.stop_eq, o.start_eq, h, ← List.cons_append, utf8Length_append, utf8Length_append, utf8Length_cons o.quote [],
      utf8Size_of_quote o.isQuote]
    rfl
  have htext : text.toList = o.before ++ o.quote :: o.inside ++ o.quote :: o.after := by
    rw [o.text_eq, h]
    simp
  rw [htext, hstop]
  exact Rewrite.charAt_append _ _ _

end Literal.Occurrence

namespace Lexer.Spelling

variable {text : String} {value : List Char} {c d : Cursor} {quote : Char} {inside rest : List Char}

theorem later (h : Spelling value c d quote inside rest) (n : Nat) :
    Spelling value (c.later n) (d.later n) quote inside rest where
  __ := h
  reaches := by
    have := h.reaches.later n
    simp only [Cursor.later] at this ⊢
    rwa [Nat.add_right_comm c.pos n, Nat.add_right_comm _ n]

theorem exists_closing (h : Spelling value c d quote inside rest) :
    ∃ closing, rest = closing ++ d.rest ∧ d.pos = c.pos + 1 + utf8Length inside + utf8Length closing ∧
      (closing = [quote] ∨ closing = [] ∧ ∀ ch ∈ d.rest.head?, ch = '\n' ∨ ch = '\r') := by
  obtain ⟨closing, hrest, hstop⟩ := h.reaches
  dsimp only at hrest hstop
  refine ⟨closing, hrest, hstop, ?_⟩
  obtain ⟨hopen, hquote⟩ | hquote := h.closed
  · refine .inr ⟨by simpa [hopen] using hrest, fun ch hch => ?_⟩
    rw [hopen] at hch
    have hafter := Quoted.interior_after quote (inside ++ rest)
    rw [h.interior_eq] at hafter
    refine (hafter ch hch).resolve_left ?_
    rintro rfl
    exact hquote hch
  · exact .inl (List.append_cancel_right (hrest.symm.trans hquote))

theorem occurrence (h : Spelling value c d quote inside rest) (hc : Reaches ⟨text.toList, 0⟩ c) :
    Nonempty (Literal.Occurrence text ⟨String.ofList value, ⟨c.pos, d.pos⟩⟩) := by
  obtain ⟨before, htext, hpos⟩ := hc
  obtain ⟨closing, hrest, hstop, hclosed⟩ := h.exists_closing
  exact ⟨{
    before, quote, inside, closing
    after := d.rest
    isQuote := h.isQuote
    text_eq := by
      dsimp only at htext
      rw [htext, h.text_eq, hrest]
      simp
    start_eq := by simpa using hpos
    stop_eq := by
      rw [hstop, utf8Length_cons, utf8Length_append, utf8Size_of_quote h.isQuote]
      dsimp only
      omega
    interior_eq := by
      rw [List.append_assoc, ← hrest]
      exact h.interior_eq
    closed := hclosed
    decode_eq := by rw [h.decode_eq]
    denoted := Quoted.exists_denotes_of_sound h.sound
    value_eq := fun ns hns hvalid => by
      rw [String.toList_ofList, ← h.decode_eq]
      exact hns.decode_eq hvalid }⟩

end Lexer.Spelling

section Tokens

open Rewrite

variable {text : String} {p : Parsed} {use : Use}
  (hp : parseFrom (withoutByteOrderMark text.toList).1 (withoutByteOrderMark text.toList).2 = .ok p)
  (hu : use.Sound ⟨p.tokens.toList, 0⟩)

include hp hu

theorem Use.Sound.contains : (p.dependency use).span.contains (p.dependency use).literal := by
  obtain ⟨a, l, b, -, hl, -, hstart, -, hstop, hspan⟩ := hu.exists_tokens hp
  rw [hspan, Parsed.dependency, Parsed.literal_eq hl]
  simp [Span.contains, hstart, hstop]

theorem Use.Sound.occurrence :
    Nonempty (Literal.Occurrence text
      ⟨(p.dependency use).specifier, (p.dependency use).literal.later (uncounted text)⟩) := by
  obtain ⟨-, -, -, l, hl, hstring⟩ := hu
  have hl : p.tokens[use.source]? = some l := by simpa using hl
  obtain ⟨d, b, hb, -, hstart, hstop, hspells⟩ := parseFrom_lies hp (Array.mem_of_getElem? hl)
  obtain ⟨quote, inside, rest, hspelling⟩ := hspells hstring
  rw [Parsed.dependency, Parsed.literal_eq hl]
  dsimp only
  rw [hstart, hstop]
  exact (hspelling.later _).occurrence ((withoutByteOrderMark_reaches text).trans (hb.later (uncounted text)))

end Tokens

end WebModules.Script

namespace WebModules

open Script Rewrite

/-- The dependencies of a module are the references of the nodes of its tree in postorder.  Each of them contains its
literal, and the text spells the specifier there; after two marks of the order of bytes that is later than the literal. -/
theorem dependencies_references {text : String} {records : List Record} (h : walk text = .ok records) :
    ∃ p places, parse text = .ok p ∧ Postorder p places records ∧
      dependencies text = .ok ((places.filterMap p.useAt?).map p.dependency) ∧
      ∀ d ∈ (places.filterMap p.useAt?).map p.dependency, d.span.contains d.literal ∧
        Nonempty (Literal.Occurrence text ⟨d.specifier, d.literal.later (uncounted text)⟩) := by
  have hdependencies : dependencies text = .ok (Dependency.ofWalk records) := by simp [dependencies, h]
  obtain ⟨p, hp, rfl⟩ := walk_eq_ok h
  obtain ⟨places, hpostorder, -⟩ := p.exists_postorder hp
  have hsound := parseFrom_sound hp
  refine ⟨p, places, by simp [parse, hp], hpostorder, hpostorder.ofWalk hsound ▸ hdependencies, fun d hd => ?_⟩
  obtain ⟨use, huse, rfl⟩ := List.mem_map.1 hd
  obtain ⟨place, -, hplace⟩ := List.mem_filterMap.1 huse
  obtain ⟨t, ht, huse⟩ := Option.bind_eq_some_iff.1 hplace
  have hu := (hsound.at? ht).use huse
  exact ⟨hu.contains hp, hu.occurrence hp⟩

/-- The second of two dependencies is a call in a call, with an escape in its literal. -/
theorem dependencies_references_nested :
    ∃ records p places,
      walk "import type T from 't'\nexport type { U } from \"é\"\nf(() => import('\\x61'))\nimport(...['c'])" = .ok records ∧
      Postorder p places records ∧
      (places.filterMap p.useAt?).map p.dependency =
        [⟨"é", .namedExport, ⟨23, 50⟩, ⟨46, 50⟩⟩, ⟨"a", .dynamicImport, ⟨59, 73⟩, ⟨66, 72⟩⟩] ∧
      Nonempty (Literal.Occurrence
        "import type T from 't'\nexport type { U } from \"é\"\nf(() => import('\\x61'))\nimport(...['c'])" ⟨"a", ⟨66, 72⟩⟩) := by
  have hfound :
      dependencies "import type T from 't'\nexport type { U } from \"é\"\nf(() => import('\\x61'))\nimport(...['c'])" =
        .ok [⟨"é", .namedExport, ⟨23, 50⟩, ⟨46, 50⟩⟩, ⟨"a", .dynamicImport, ⟨59, 73⟩, ⟨66, 72⟩⟩] := by
    decide +kernel
  cases h : walk "import type T from 't'\nexport type { U } from \"é\"\nf(() => import('\\x61'))\nimport(...['c'])" with
  | error e => simp [dependencies, h] at hfound
  | ok records =>
      obtain ⟨p, places, -, hpostorder, hdependencies, hspelled⟩ := dependencies_references h
      have heq := Except.ok.inj (hdependencies.symm.trans hfound)
      refine ⟨records, p, places, rfl, hpostorder, heq, ?_⟩
      exact (hspelled ⟨"a", .dynamicImport, ⟨59, 73⟩, ⟨66, 72⟩⟩ (by simp [heq])).2

/-- After two marks the literal is taken to begin within the word before it. -/
theorem dependencies_two_marks :
    ∃ d, dependencies "\ufeff\ufeffimport 'a'" = .ok [d] ∧
      IsEmpty (Literal.Occurrence "\ufeff\ufeffimport 'a'" ⟨d.specifier, d.literal⟩) := by
  refine ⟨⟨"a", .staticImport, ⟨3, 13⟩, ⟨10, 13⟩⟩, by decide +kernel, ⟨fun o => ?_⟩⟩
  have hchar : Rewrite.charAt "\ufeff\ufeffimport 'a'".toList 10 = 'r' := by decide +kernel
  have hquote := o.isQuote
  rw [← o.charAt_start, hchar] at hquote
  revert hquote
  decide

/-- A string that the line ends is taken for a dependency where it is in the head of an arrow with type parameters. -/
theorem dependencies_unclosed :
    ∃ d, dependencies "f = <T>(x = import('a\n)) => x" = .ok [d] ∧
      ∀ o : Literal.Occurrence "f = <T>(x = import('a\n)) => x" ⟨d.specifier, d.literal⟩, o.closing ≠ [o.quote] := by
  refine ⟨⟨"a", .dynamicImport, ⟨12, 23⟩, ⟨19, 21⟩⟩, by decide +kernel, fun o hclosed => ?_⟩
  have hchar : Rewrite.charAt "f = <T>(x = import('a\n)) => x".toList 20 = 'a' := by decide +kernel
  have hlast : Rewrite.charAt "f = <T>(x = import('a\n)) => x".toList 20 = o.quote := o.charAt_last hclosed
  have hquote := o.isQuote
  rw [← hlast, hchar] at hquote
  revert hquote
  decide

/-- Two escapes that together stand for one character stay escapes in the specifier. -/
theorem dependencies_surrogates :
    dependencies "import '\\uD83D\\uDE00'" = .ok [⟨"\\uD83D\\uDE00", .staticImport, ⟨0, 21⟩, ⟨7, 21⟩⟩] ∧
      Quoted.Denotes "\\uD83D\\uDE00".toList [0xd83d, 0xde00] := by
  refine ⟨by decide +kernel, ?_⟩
  change Quoted.Denotes ('\\' :: 'u' :: (['D', '8', '3', 'D'] ++ '\\' :: 'u' :: (['D', 'E', '0', '0'] ++ []))) _
  exact .escape (.unit rfl (by decide)) (.escape (.unit rfl (by decide)) .nil)

end WebModules
