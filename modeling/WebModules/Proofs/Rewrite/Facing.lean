import WebModules.Proofs.Rewrite.Literal
import WebModules.Proofs.Script.Heeds

/-!
A text and the text that names were filled into, seen from two places that face each other.  A scan
that heeds the literals finds the same token in both texts or, where it finds a literal, a string
that stands for its name, and ends at places that face each other again.
-/

namespace WebModules.Rewrite

open Script Lexer Cursor Cut

variable {fills : List (Span × String)} {l l' : Lexeme}

/-- What takes the place of a token where names were filled in.  `fills` are the names, each with the
bytes of the literal that it takes the place of. -/
structure Renewed (fills : List (Span × String)) (l l' : Lexeme) : Prop where
  token : l'.token = l.token
  afterLineBreak : l'.afterLineBreak = l.afterLineBreak
  named : ∀ name, (l.span, name) ∈ fills → l.token = .string ∧ l'.value = name.toList
  kept : (∀ name, (l.span, name) ∉ fills) →
    l'.raw = l.raw ∧ l'.value = l.value ∧ l'.fault?.isSome = l.fault?.isSome

theorem Renewed.like (h : Renewed fills l l') : l.Like l' where
  token := h.token
  afterLineBreak := h.afterLineBreak
  fault hmalformed := by
    by_cases hfill : ∃ name, (l.span, name) ∈ fills
    · obtain ⟨name, hname⟩ := hfill
      have hstring := (h.named name hname).1
      rw [hmalformed] at hstring
      cases hstring
    · exact (h.kept (not_exists.1 hfill)).2.2

theorem not_mem_of_isOther (h : l.isOther (fills.map Prod.fst)) (name : String) :
    (l.span, name) ∉ fills := by
  intro hname
  have hmem : l.span ∈ fills.map Prod.fst := List.mem_map_of_mem hname
  simp [Lexeme.isOther, hmem] at h

theorem mem_spansFrom {pos : Nat} {pieces : List (List Char × List Char)} {s : Span}
    (h : s ∈ spansFrom pos pieces) : pos ≤ s.start ∧ s.start ≤ s.stop := by
  induction pieces generalizing pos with
  | nil => cases h
  | cons piece pieces ih =>
      obtain ⟨gap, literal⟩ := piece
      obtain rfl | h := List.mem_cons.1 h
      · exact ⟨Nat.le_add_right .., Nat.le_add_right ..⟩
      · have := ih h
        omega

/-- A literal that is replaced begins with its quote. -/
def Quotable (literal : List Char) : Prop := ∃ quote r, IsQuote quote ∧ literal = quote :: r

/-- Two places, one in the text that `pieces` and `rest` are left of and one in the same text with
names filled in. -/
structure Facing (fills : List (Span × String)) (pieces : List (List Char × List Char))
    (names : List String) (rest : List Char) (c c' : Cursor) : Prop where
  here : c.rest = joined pieces rest
  there : c'.rest = joined (filled pieces names) rest
  length : names.length = pieces.length
  quotable : ∀ p ∈ pieces, Quotable p.2
  lines : ∀ n ∈ names, OneLine n.toList
  fills : ∀ literal name, c.pos ≤ literal.start →
    ((literal, name) ∈ fills ↔ (literal, name) ∈ (spansFrom c.pos pieces).zip names)

/-- Two places that face each other, whatever is left of the texts. -/
def Faces (fills : List (Span × String)) (c c' : Cursor) : Prop :=
  ∃ pieces names rest, Facing fills pieces names rest c c'

/-- Two scans from places that face each other. -/
structure Faced (fills : List (Span × String)) (c c' : Cursor) (s s' : Scanned) : Prop where
  renewed : Renewed fills s.lexeme s'.lexeme
  adjacent : s'.lexeme.start = c'.pos ↔ s.lexeme.start = c.pos
  faults : s'.faults.length ≤ s.faults.length
  after : Faces fills s.after s'.after

theorem Renewed.of_alike {v v' : List Char} {c c' : Cursor} {s s' : Scanned}
    (h : s.Alike v v' c c' s') (hno : ∀ name, (s.lexeme.span, name) ∉ fills) :
    Renewed fills s.lexeme s'.lexeme where
  token := h.token
  afterLineBreak := h.afterLineBreak
  named name hname := absurd hname (hno name)
  kept _ := by
    refine ⟨h.raw, h.value, ?_⟩
    have hfault := congrArg Option.isSome h.fault
    rwa [Option.isSome_map, Option.isSome_map] at hfault

theorem faults_le_of_alike {v v' : List Char} {c c' : Cursor} {s s' : Scanned}
    (h : s.Alike v v' c c' s') : s'.faults.length ≤ s.faults.length := by
  have hlength := congrArg List.length h.faults
  rw [complaints, complaints, List.length_map, List.length_map] at hlength
  exact Nat.le_of_eq hlength

/-- The bytes of a literal that a gap stands before. -/
def spanAfter (c : Cursor) (gap literal : List Char) : Span :=
  ⟨c.pos + utf8Length gap, c.pos + utf8Length gap + utf8Length literal⟩

theorem spanAfter_lt {c : Cursor} (gap : List Char) {literal : List Char} (h : Quotable literal) :
    (spanAfter c gap literal).start < (spanAfter c gap literal).stop := by
  obtain ⟨quote, r, -, rfl⟩ := h
  have := utf8Length_pos (List.cons_ne_nil quote r)
  simp only [spanAfter]
  omega

theorem filled_cons (gap source : List Char) (pieces : List (List Char × List Char)) (name : String)
    (names : List String) :
    filled ((gap, source) :: pieces) (name :: names) =
      (gap, quoted (source.headD '"') name.toList) :: filled pieces names := rfl

theorem pos_le_start (mode : Mode) (first : Bool) (c : Cursor) :
    c.pos ≤ (scan mode first c).lexeme.start := by
  obtain ⟨_, hb, _, hstart, _⟩ := scan_lies mode first c
  rw [hstart]
  exact hb.pos_le

theorem stop_eq_pos (mode : Mode) (first : Bool) (c : Cursor) :
    (scan mode first c).lexeme.stop = (scan mode first c).after.pos := by
  obtain ⟨_, _, _, _, hstop, _⟩ := scan_lies mode first c
  exact hstop

theorem reaches_scan (mode : Mode) (first : Bool) (c : Cursor) :
    c.Reaches (scan mode first c).after := by
  obtain ⟨_, hb, hd, _⟩ := scan_lies mode first c
  exact hb.trans hd

section Steps

variable {mode : Mode} {first : Bool} {pieces : List (List Char × List Char)}
  {gap source rest : List Char} {name : String} {names : List String} {c c' : Cursor}

/-- Where no literal is left, the rest of the text is the same. -/
theorem Facing.last (h : Facing fills [] names rest c c') :
    Faced fills c c' (scan mode first c) (scan mode first c') := by
  have hhere : c.rest = rest ++ [] := by rw [h.here, joined, List.flatMap_nil, List.append_nil]; rfl
  have hthere : c'.rest = rest ++ [] := by
    rw [h.there, filled, List.zipWith_nil_left, joined, List.flatMap_nil, List.append_nil]
    rfl
  have halike := scan_alike .ends mode first ⟨rest, hhere, hthere⟩ (List.nil_suffix ..)
  obtain ⟨rest', hrest, hrest'⟩ := halike.after
  refine ⟨.of_alike halike fun name hname => ?_, halike.adjacent, faults_le_of_alike halike, [],
    names, rest', ?_⟩
  · have hmem := (h.fills _ name (pos_le_start mode first c)).1 hname
    cases hmem
  · exact ⟨by simpa [joined] using hrest, by simpa [joined, filled] using hrest', h.length,
      h.quotable, h.lines, fun literal name hpos =>
        h.fills literal name (Nat.le_trans (reaches_scan mode first c).pos_le hpos)⟩

/-- A scan that heeds the literals finds the first one that is left, or ends before it. -/
theorem Facing.found (h : Facing fills ((gap, source) :: pieces) (name :: names) rest c c')
    (hheeds : l.heeds (fills.map Prod.fst) c.pos) :
    (l.span = spanAfter c gap source ∧ l.token = .string) ∨ l.stop ≤ c.pos + utf8Length gap := by
  have hmem : (spanAfter c gap source, name) ∈ fills :=
    (h.fills _ name (Nat.le_add_right ..)).2 (List.mem_cons_self ..)
  have hlt : (spanAfter c gap source).start < (spanAfter c gap source).stop :=
    spanAfter_lt gap (h.quotable _ (List.mem_cons_self ..))
  have hfirst := List.all_eq_true.1 hheeds _ (List.mem_map_of_mem hmem)
  simp only [Bool.or_eq_true, Bool.and_eq_true, beq_iff_eq, decide_eq_true_eq] at hfirst
  obtain (⟨hstring, hspan⟩ | hbefore) | hafter := hfirst
  · exact .inl ⟨hspan, hstring⟩
  · exact .inr hbefore
  · have hpos : c.pos ≤ (spanAfter c gap source).start := Nat.le_add_right ..
    omega

/-- After the first gap that is left, a literal stands in one text, and a name in the same quotes in the other. -/
theorem Facing.opening (h : Facing fills ((gap, source) :: pieces) (name :: names) rest c c') :
    ∃ quote r, IsQuote quote ∧ source = quote :: r ∧ c.rest = gap ++ quote :: (r ++ joined pieces rest) ∧
      c'.rest = gap ++ (quoted quote name.toList ++ joined (filled pieces names) rest) := by
  obtain ⟨quote, r, hq, rfl⟩ := h.quotable _ (List.mem_cons_self ..)
  refine ⟨quote, r, hq, rfl, ?_, ?_⟩
  · rw [h.here, joined_cons, List.cons_append]
  · rw [h.there, filled_cons, joined_cons]
    rfl

/-- A scan that finds the first literal that is left finds its name in the other text. -/
theorem Facing.named (h : Facing fills ((gap, source) :: pieces) (name :: names) rest c c')
    (hspan : (scan mode first c).lexeme.span = spanAfter c gap source)
    (hstring : (scan mode first c).lexeme.token = .string) :
    Faced fills c c' (scan mode first c) (scan mode first c') := by
  obtain ⟨quote, r, hq, rfl, hhere, hthere⟩ := h.opening
  have hlt := spanAfter_lt (c := c) gap ⟨quote, r, hq, rfl⟩
  have hstart : (scan mode first c).lexeme.start = c.pos + utf8Length gap := congrArg Span.start hspan
  obtain ⟨hnamed, hrest⟩ :=
    scan_literal hq (h.lines _ (List.mem_cons_self ..)) hhere hthere hstring hstart
  have hpos : (scan mode first c).after.pos = (spanAfter c gap (quote :: r)).stop := by
    rw [← stop_eq_pos, ← hspan]
    rfl
  have hle := pos_le_start mode first c
  refine ⟨⟨hnamed.token.trans hstring.symm, hnamed.afterLineBreak, fun n hn => ⟨hstring, ?_⟩,
    fun hno => ?_⟩, hnamed.adjacent, ?_, pieces, names, rest, ?_⟩
  · rw [h.fills _ _ hle, hspan] at hn
    obtain hn | hn := List.mem_cons.1 hn
    · cases hn
      exact hnamed.value
    · have hlater : (spanAfter c gap (quote :: r)).stop ≤ (spanAfter c gap (quote :: r)).start :=
        (mem_spansFrom (List.of_mem_zip hn).1).1
      omega
  · refine absurd ?_ (hno name)
    rw [h.fills _ _ hle, hspan]
    exact List.mem_cons_self ..
  · have hlength := hnamed.faults.length_le
    rwa [complaints, complaints, List.length_map, List.length_map] at hlength
  · refine ⟨?_, hrest, by simpa using h.length, fun p hp => h.quotable p (List.mem_cons_of_mem _ hp),
      fun n hn => h.lines n (List.mem_cons_of_mem _ hn), fun literal n hafter => ?_⟩
    · exact rest_eq_of_pos_eq (reaches_scan mode first c) (e := ⟨joined pieces rest, _⟩)
        ⟨gap ++ quote :: r, by simp [hhere],
          by simp [spanAfter, utf8Length_append, Nat.add_assoc]⟩ hpos
    · rw [h.fills literal n (Nat.le_trans (reaches_scan mode first c).pos_le hafter)]
      rw [hpos] at hafter ⊢
      refine ⟨fun hmem => ?_, List.mem_cons_of_mem _⟩
      obtain hmem | hmem := List.mem_cons.1 hmem
      · rw [(Prod.mk.inj hmem).1] at hafter
        exact absurd (Nat.lt_of_lt_of_le hlt hafter) (Nat.lt_irrefl _)
      · exact hmem

theorem Facing.before (h : Facing fills ((gap, source) :: pieces) (name :: names) rest c c')
    (hpos : (scan mode first c).after.pos ≤ c.pos + utf8Length gap) :
    Faced fills c c' (scan mode first c) (scan mode first c') := by
  obtain ⟨quote, r, hq, rfl, hhere, hthere⟩ := h.opening
  have hlt := spanAfter_lt (c := c) gap ⟨quote, r, hq, rfl⟩
  have hreach : (scan mode first c).after.Reaches
      ⟨quote :: (r ++ joined pieces rest), c.pos + utf8Length gap⟩ :=
    reaches_of_pos_le (reaches_scan mode first c) ⟨gap, hhere, rfl⟩ hpos
  have hb : Border (quote :: (r ++ joined pieces rest))
      (quoted quote name.toList ++ joined (filled pieces names) rest) := .quote hq _ _
  have halike := scan_alike hb mode first ⟨gap, hhere, hthere⟩
    (Within.of_reaches (d := ⟨quote :: (r ++ joined pieces rest), _⟩) List.suffix_rfl hreach)
  obtain ⟨gap', hgap, hgap'⟩ := halike.after
  have hsame : c.pos + utf8Length gap = (scan mode first c).after.pos + utf8Length gap' := by
    obtain ⟨cs, hcs, hcspos⟩ := hreach
    obtain rfl : gap' = cs := List.append_cancel_right (hgap.symm.trans hcs)
    exact hcspos
  have hspans : spansFrom (scan mode first c).after.pos ((gap', quote :: r) :: pieces) =
      spansFrom c.pos ((gap, quote :: r) :: pieces) := by
    simp only [spansFrom, ← hsame]
  have hnot : (scan mode first c).lexeme.span ∉ spansFrom c.pos ((gap, quote :: r) :: pieces) := by
    intro hmem
    have hle := (scan_lies mode first c).start_le
    have hstop := stop_eq_pos mode first c
    obtain hmem | hmem := List.mem_cons.1 hmem
    · simp only [Lexeme.span, Span.mk.injEq] at hmem
      simp only [spanAfter] at hlt
      omega
    · have := (mem_spansFrom hmem).1
      simp only [Lexeme.span, spanAfter] at this hlt
      omega
  refine ⟨.of_alike halike fun n hn => ?_, halike.adjacent, faults_le_of_alike halike,
    (gap', quote :: r) :: pieces, name :: names, rest, ?_⟩
  · exact hnot (List.of_mem_zip ((h.fills _ _ (pos_le_start mode first c)).1 hn)).1
  · refine ⟨by rw [hgap, joined_cons, List.cons_append], ?_, h.length, ?_, h.lines, ?_⟩
    · rw [hgap', filled_cons, joined_cons]
      rfl
    · intro p hp
      obtain rfl | hp := List.mem_cons.1 hp
      · exact ⟨quote, r, hq, rfl⟩
      · exact h.quotable p (List.mem_cons_of_mem _ hp)
    · rw [hspans]
      exact fun literal n hle =>
        h.fills literal n (Nat.le_trans (reaches_scan mode first c).pos_le hle)

end Steps

/-- A scan that heeds the literals leads to places that face each other again. -/
theorem Faces.scan {c c' : Cursor} (h : Faces fills c c') (mode : Mode) (first : Bool)
    (hheeds : (scan mode first c).lexeme.heeds (fills.map Prod.fst) c.pos) :
    Faced fills c c' (Lexer.scan mode first c) (Lexer.scan mode first c') := by
  obtain ⟨pieces, names, rest, h⟩ := h
  cases pieces with
  | nil => exact h.last
  | cons piece pieces =>
      obtain ⟨gap, source⟩ := piece
      obtain ⟨name, names, rfl⟩ := List.exists_cons_of_length_eq_add_one h.length
      obtain ⟨hspan, hstring⟩ | hbefore := h.found hheeds
      · exact h.named hspan hstring
      · rw [stop_eq_pos] at hbefore
        exact h.before hbefore

end WebModules.Rewrite
