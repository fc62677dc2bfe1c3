import WebModules.Proofs.Rewrite.Fill
import WebModules.Proofs.Script.Postorder
import WebModules.Proofs.Script.Uses

/-!
The spans of a walk.  A node takes its tokens with all that stands between them, so its span is a
stretch of the text within the span of the node around it.  The exceptions are nodes that end with a
missing operand, and texts with two marks of the order of bytes, of which a walk counts one.
-/

namespace WebModules.Script

open Lexer

/-- A part of the text between two places where characters begin or end. -/
structure Span.Stretch (text : String) (s : Span) : Prop where
  start_le_stop : s.start ≤ s.stop
  stop_le : s.stop ≤ text.utf8ByteSize
  start_valid : (⟨s.start⟩ : String.Pos.Raw).IsValid text
  stop_valid : (⟨s.stop⟩ : String.Pos.Raw).IsValid text

theorem utf8ByteSize_ofList (cs : List Char) : (String.ofList cs).utf8ByteSize = utf8Length cs := by
  induction cs with
  | nil => rfl
  | cons c cs ih => rw [String.ofList_cons, String.utf8ByteSize_append, String.utf8ByteSize_singleton, ih, utf8Length_cons]

namespace Cursor

variable {text : String} {c d : Cursor}

theorem Reaches.isValid (h : Reaches ⟨text.toList, 0⟩ c) : (⟨c.pos⟩ : String.Pos.Raw).IsValid text := by
  obtain ⟨cs, hrest, hpos⟩ := h
  refine String.Pos.Raw.isValid_iff_exists_append.2 ⟨String.ofList cs, String.ofList c.rest, ?_, ?_⟩
  · rw [← String.ofList_append, ← hrest, String.ofList_toList]
  · rw [hpos, Nat.zero_add, ← utf8ByteSize_ofList]
    rfl

theorem Reaches.stretch (hc : Reaches ⟨text.toList, 0⟩ c) (hcd : c.Reaches d) : Span.Stretch text ⟨c.pos, d.pos⟩ where
  start_le_stop := hcd.pos_le
  stop_le := (hc.trans hcd).isValid.le_rawEndPos
  start_valid := hc.isValid
  stop_valid := (hc.trans hcd).isValid

end Cursor

namespace Tree

variable {lo hi : Nat} {t u v : Tree} {place : List Nat} {kind : NodeKind} {p : Parsed}

theorem at?_append (outer place : List Nat) (t : Tree) : t.at? (outer ++ place) = (t.at? outer).bind (Tree.at? place) := by
  induction outer generalizing t with
  | nil => rfl
  | cons i outer ih =>
      simp only [List.cons_append, at?]
      cases t.children[i]? with
      | none => rfl
      | some child => exact ih child

/-- What passes from nodes to their children passes to the nodes at all places. -/
theorem of_at? {P : Tree → Prop} (hP : ∀ t, P t → ∀ child ∈ t.children, P child) (ht : P t) (hu : t.at? place = some u) :
    P u := by
  induction place generalizing t with
  | nil => exact Option.some.inj hu ▸ ht
  | cons i place ih =>
      obtain ⟨child, hchild, hu⟩ := Option.bind_eq_some_iff.1 hu
      exact ih (hP t ht child (List.mem_of_getElem? hchild)) hu

theorem Nested.at? (h : t.Nested lo hi) (hu : t.at? place = some u) : u.Nested lo hi :=
  of_at? (fun _ ht => ht.inside) h hu

theorem isPart_of_kind {shape : Shape} (hkind : p.kind? shape = some kind) : shape.isPart = false := by
  cases shape <;> first | rfl | cases hkind

/-- A node that a walk records has tokens, unless an operand is missing at its end. -/
theorem Nested.solid_of_kind (h : t.Nested lo hi) (hkind : p.kind? t.shape = some kind) (hmissing : t.missing? = Option.none) :
    t.Solid lo hi := by
  obtain ⟨shape, first, stop, children⟩ := t
  refine h.solid (isPart_of_kind hkind) ?_
  cases shape with
  | missing => simp [missing?] at hmissing
  | assigned => cases hkind
  | _ => rfl

end Tree

theorem Tree.Solid.exists_tokens {p : Parsed} {t : Tree} (ht : t.Solid 0 p.tokens.size) (hmissing : t.missing? = Option.none) :
    ∃ a b, p.tokens[t.first]? = some a ∧ p.tokens[t.stop - 1]? = some b ∧ p.spanOf t = ⟨a.start, b.stop⟩ := by
  have hlast : t.stop - 1 < p.tokens.size := by
    have := ht.filled
    have := ht.upper
    omega
  have hfirst : t.first < p.tokens.size := Nat.lt_of_lt_of_le ht.filled ht.upper
  have ha := Array.getElem?_eq_getElem hfirst
  have hb := Array.getElem?_eq_getElem hlast
  refine ⟨_, _, ha, hb, ?_⟩
  rw [Parsed.spanOf, hmissing]
  exact Parsed.span_eq ha hb

section Tokens

variable {origin : Nat} {text : List Char} {p : Parsed} (h : parseFrom origin text = .ok p) {t u : Tree}

include h

theorem Tree.Solid.exists_places (ht : t.Solid 0 p.tokens.size) (hmissing : t.missing? = Option.none) :
    ∃ c d : Cursor, Cursor.Reaches ⟨text, origin⟩ c ∧ c.Reaches d ∧ p.spanOf t = ⟨c.pos, d.pos⟩ := by
  obtain ⟨a, b, ha, hb, hspan⟩ := ht.exists_tokens hmissing
  obtain ⟨_, c, hc, -, hstart, -⟩ := parseFrom_lies h (Array.mem_of_getElem? ha)
  obtain ⟨d, e, he, hed, -, hstop, -⟩ := parseFrom_lies h (Array.mem_of_getElem? hb)
  have horder : a.start ≤ b.stop := by
    obtain ⟨_, hlies⟩ := parseFrom_lies h (Array.mem_of_getElem? ha)
    exact Nat.le_trans hlies.start_le (stop_le_stop h (Nat.le_sub_one_of_lt ht.filled) ha hb)
  rw [hstart, hstop] at horder hspan
  exact ⟨c, d, hc, Rewrite.reaches_of_pos_le hc (he.trans hed) horder, hspan⟩

theorem Tree.Solid.contains (ht : t.Solid 0 p.tokens.size) (hmissing : t.missing? = Option.none) (hu : u.Solid t.first t.stop)
    (hmissing' : u.missing? = Option.none) : (p.spanOf t).contains (p.spanOf u) := by
  obtain ⟨a, b, ha, hb, hspan⟩ := ht.exists_tokens hmissing
  obtain ⟨a', b', ha', hb', hspan'⟩ := (hu.mono (Nat.zero_le _) ht.upper).exists_tokens hmissing'
  have hstart := start_le_start h hu.lower ha ha'
  have hstop := stop_le_stop h (Nat.sub_le_sub_right hu.upper 1) hb' hb
  rw [hspan, hspan']
  simp [Span.contains, hstart, hstop]

end Tokens

theorem Parsed.span_outline_of_empty {origin : Nat} (p : Parsed) (hempty : p.tokens = #[]) :
    (p.outline origin).span = ⟨origin, origin⟩ := by
  obtain ⟨⟨shape, first, stop, items⟩, tokens⟩ := p
  obtain rfl : tokens = #[] := hempty
  rfl

/-- The record with the number `i` belongs to a node that does not end with a missing operand. -/
def Whole (p : Parsed) (places : List (List Nat)) (i : Nat) : Prop :=
  ∃ place t, places[i]? = some place ∧ p.tree.at? place = some t ∧ t.missing? = none

namespace Postorder

variable {origin : Nat} {text : List Char} {p : Parsed} (hp : parseFrom origin text = .ok p)
  {places : List (List Nat)} {records : List Record} (h : Postorder p places records) {i j : Nat} {r outer : Record}

include hp h

/-- The tree of a module without tokens has no other node that a walk records. -/
theorem solid_or_root (hr : records[i]? = some r) (hwhole : Whole p places i) :
    (∃ place t, places[i]? = some place ∧ p.tree.at? place = some t ∧ t.missing? = none ∧
      t.Solid 0 p.tokens.size ∧ r.span = p.spanOf t) ∨
    (p.tokens = #[] ∧ i + 1 = records.length) := by
  obtain ⟨place, t, ha, ht, hmissing⟩ := hwhole
  obtain ⟨t', ht', hkind, hspan⟩ := h.node i place r ha hr
  obtain rfl := Option.some.inj (ht'.symm.trans ht)
  obtain ⟨items, htree, hitems⟩ := parseFrom_nested hp
  by_cases hempty : p.tokens = #[]
  · right
    refine ⟨hempty, ?_⟩
    cases place with
    | nil =>
        by_contra hne
        have hi := (List.getElem?_eq_some_iff.1 hr).1
        obtain ⟨j, outer, -, -, -, hnear⟩ := h.parent i [] r ha hr (by omega)
        exact hnear.ne (List.prefix_nil.1 hnear.around)
    | cons k place =>
        rw [htree] at ht
        obtain ⟨item, hitem, ht⟩ := Option.bind_eq_some_iff.1 ht
        have hsolid := ((hitems item (List.mem_of_getElem? hitem)).at? ht).solid_of_kind hkind hmissing
        have := hsolid.filled
        have := hsolid.upper
        simp only [hempty, List.size_toArray, List.length_nil] at this
        omega
  · left
    have hnested : p.tree.Nested 0 p.tokens.size := by
      rw [htree]
      exact .whole (Nat.le_refl _) (Nat.zero_le _) (Nat.le_refl _) (.inr (Array.size_pos_iff.2 hempty)) hitems
    exact ⟨place, _, ha, ht, hmissing, (hnested.at? ht).solid_of_kind hkind hmissing, hspan hempty⟩

theorem contains (hr : records[i]? = some r) (hparent : r.parent = some j) (houter : records[j]? = some outer)
    (hi : Whole p places i) (hj : Whole p places j) : outer.span.contains r.span := by
  have hlast (k : Nat) {r : Record} (hr : records[k]? = some r) (hk : k + 1 = records.length) : r.parent = none :=
    (h.last k r hr hk).2.1
  obtain ⟨place, t, ha, ht, hmissing, htsolid, hspan⟩ | ⟨-, hroot⟩ := h.solid_or_root hp hr hi
  · obtain ⟨place', u, hb, hu, hmissing', husolid, hspan'⟩ | ⟨hempty, -⟩ := h.solid_or_root hp houter hj
    · obtain ⟨around, haround, hnear⟩ := h.nearest hr hparent ha
      obtain rfl := Option.some.inj (haround.symm.trans hb)
      obtain ⟨rest, rfl⟩ := hnear.around
      rw [Tree.at?_append, hu, Option.bind_some] at ht
      obtain ⟨t', ht', hkind, -⟩ := h.node i _ r ha hr
      rw [Tree.at?_append, hu, Option.bind_some] at ht'
      obtain rfl := Option.some.inj (ht'.symm.trans ht)
      have hsolid := (husolid.tight.nested.at? ht).solid_of_kind hkind hmissing
      rw [hspan, hspan']
      exact husolid.contains hp hmissing' hsolid hmissing
    · have := htsolid.filled
      have := htsolid.upper
      simp only [hempty, List.size_toArray, List.length_nil] at this
      omega
  · rw [hlast i hr hroot] at hparent
    cases hparent

/-- The text goes from the start of a record to its end. -/
theorem exists_places (hspan : records.getLast? = some ⟨.module, (p.outline origin).span, none⟩)
    (hr : records[i]? = some r) (hwhole : Whole p places i) :
    ∃ c d : Cursor, Cursor.Reaches ⟨text, origin⟩ c ∧ c.Reaches d ∧ r.span = ⟨c.pos, d.pos⟩ := by
  obtain ⟨-, t, -, -, hmissing, hsolid, heq⟩ | ⟨hempty, hlast⟩ := h.solid_or_root hp hr hwhole
  · exact heq ▸ hsolid.exists_places hp hmissing
  · rw [List.getLast?_eq_getElem?, ← hlast, Nat.add_sub_cancel, hr] at hspan
    refine ⟨_, _, .refl _, .refl _, ?_⟩
    rw [Option.some.inj hspan]
    exact p.span_outline_of_empty hempty

end Postorder

end WebModules.Script

namespace WebModules

open Script Rewrite

/-- The records of a walk are the nodes of the tree that a walk records, in postorder: only the last of them,
which is the module, has no parent, and what is within a record stands right before it.  Unless an operand is
missing at its end, a node takes a stretch of the text; after two marks of the order of bytes that is later than
the walk has it. -/
theorem walk_postorder {text : String} {records : List Record} (h : walk text = .ok records) :
    ∃ p places, parse text = .ok p ∧ Postorder p places records ∧
      (∀ j < records.length, ∃ k ≤ j, ∀ i, Within records i j ↔ k ≤ i ∧ i < j) ∧
      ∀ i r, records[i]? = some r → Whole p places i →
        (r.span.later (uncounted text)).Stretch text ∧
        ∀ j outer, r.parent = some j → records[j]? = some outer → Whole p places j → outer.span.contains r.span := by
  obtain ⟨p, hp, rfl⟩ := walk_eq_ok h
  obtain ⟨places, hpostorder, hspan⟩ := p.exists_postorder hp
  refine ⟨p, places, ?_, hpostorder, fun j => hpostorder.within_block, fun i r hr hwhole => ⟨?_, ?_⟩⟩
  · simp [parse, hp]
  · obtain ⟨c, d, hc, hcd, heq⟩ := hpostorder.exists_places hp hspan hr hwhole
    have hstart := (withoutByteOrderMark_reaches text).trans (hc.later (uncounted text))
    rw [heq]
    exact hstart.stretch (hcd.later _)
  · exact fun j outer hparent houter => hpostorder.contains hp hr hparent houter hwhole

/-- The records of a sum with a call for its second operand. -/
theorem walk_postorder_sum :
    ∃ records p places, walk "é + f(x)" = .ok records ∧ parse "é + f(x)" = .ok p ∧ Postorder p places records ∧
      records.map (fun r => (r.span, r.parent)) =
        [(⟨0, 2⟩, some 4), (⟨5, 6⟩, some 3), (⟨7, 8⟩, some 3), (⟨5, 9⟩, some 4), (⟨0, 9⟩, some 5), (⟨0, 9⟩, some 6),
          (⟨0, 9⟩, none)] := by
  have hwalk : walk "é + f(x)" = .ok [⟨.expression, ⟨0, 2⟩, some 4⟩, ⟨.expression, ⟨5, 6⟩, some 3⟩,
      ⟨.expression, ⟨7, 8⟩, some 3⟩, ⟨.expression, ⟨5, 9⟩, some 4⟩, ⟨.expression, ⟨0, 9⟩, some 5⟩,
      ⟨.statement, ⟨0, 9⟩, some 6⟩, ⟨.module, ⟨0, 9⟩, none⟩] := by
    decide +kernel
  obtain ⟨p, places, hparse, hpostorder, -⟩ := walk_postorder hwalk
  exact ⟨_, p, places, hwalk, hparse, hpostorder, rfl⟩

/-- After two marks a string is taken to end within its second character. -/
theorem walk_two_marks :
    ∃ records, walk "\ufeff\ufeff'éa'" = .ok records ∧ ∃ r ∈ records, ¬ r.span.Stretch "\ufeff\ufeff'éa'" := by
  refine ⟨[⟨.expression, ⟨3, 8⟩, some 1⟩, ⟨.statement, ⟨3, 8⟩, some 2⟩, ⟨.module, ⟨3, 8⟩, none⟩], by decide +kernel,
    ⟨.module, ⟨3, 8⟩, none⟩, by simp, fun h => ?_⟩
  have := h.stop_valid
  revert this
  decide +kernel

/-- Where an operand is missing in the head of an arrow, it is taken to be within the character before the
parenthesis. -/
theorem walk_missing_operand :
    ∃ records, walk "f = <T>(x = !\u00a0) => x" = .ok records ∧
      ∃ r ∈ records, ¬ r.span.Stretch "f = <T>(x = !\u00a0) => x" := by
  refine ⟨[⟨.expression, ⟨14, 14⟩, some 1⟩, ⟨.expression, ⟨12, 14⟩, some 3⟩, ⟨.expression, ⟨20, 21⟩, some 3⟩,
    ⟨.expression, ⟨4, 21⟩, some 4⟩, ⟨.expression, ⟨0, 21⟩, some 5⟩, ⟨.statement, ⟨0, 21⟩, some 6⟩,
    ⟨.module, ⟨0, 21⟩, none⟩], by decide +kernel, ⟨.expression, ⟨12, 14⟩, some 3⟩, by simp, fun h => ?_⟩
  have := h.stop_valid
  revert this
  decide +kernel

end WebModules
