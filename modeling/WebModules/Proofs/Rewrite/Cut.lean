import WebModules.Proofs.Script.Walk
import WebModules.Rewrite

/-!
A text cut into the literals that are to be replaced and the gaps between them.  Literals that stand
in the text one after the other determine one cut, and filling it in is what the edits do.
-/

namespace WebModules.Rewrite

open Script Lexer Cursor

/-- A text as literals, each with the gap before it, and what comes after the last of them. -/
structure Cut where
  pieces : List (List Char × List Char)
  rest : List Char

namespace Cut

/-- The text of gaps and literals, and what comes after them. -/
def joined (pieces : List (List Char × List Char)) (rest : List Char) : List Char :=
  (pieces.flatMap fun p => p.1 ++ p.2) ++ rest

/-- The bytes of the literals, where `pos` bytes stand before the first gap. -/
def spansFrom : Nat → List (List Char × List Char) → List Span
  | _, [] => []
  | pos, (gap, literal) :: pieces =>
      let start := pos + utf8Length gap
      let stop := start + utf8Length literal
      ⟨start, stop⟩ :: spansFrom stop pieces

/-- The pieces with a name in place of each literal, between quotes like those of the literal. -/
def filled (pieces : List (List Char × List Char)) (names : List String) :
    List (List Char × List Char) :=
  pieces.zipWith (fun p name => (p.1, quoted (p.2.headD '"') name.toList)) names

def text (c : Cut) : List Char := joined c.pieces c.rest

def literals (c : Cut) : List (List Char) := c.pieces.map Prod.snd

def spans (c : Cut) : List Span := spansFrom 0 c.pieces

/-- The text with a name in place of each literal. -/
def fill (c : Cut) (names : List String) : List Char := joined (filled c.pieces names) c.rest

end Cut

open Cut

theorem joined_cons (gap literal : List Char) (pieces : List (List Char × List Char))
    (rest : List Char) :
    joined ((gap, literal) :: pieces) rest = gap ++ (literal ++ joined pieces rest) := by
  simp [joined]

theorem splitBytes_append (cs r : List Char) : splitBytes (utf8Length cs) (cs ++ r) = (cs, r) := by
  induction cs with
  | nil => simp [utf8Length, splitBytes]
  | cons c cs ih =>
      obtain ⟨n, hn⟩ : ∃ n, utf8Length (c :: cs) = n + 1 :=
        Nat.exists_eq_succ_of_ne_zero (Nat.ne_of_gt (utf8Length_pos (List.cons_ne_nil c cs)))
      have hrest : n + 1 - c.utf8Size = utf8Length cs := by
        rw [← hn, utf8Length_cons]
        omega
      rw [hn, List.cons_append, splitBytes, hrest, ih]

theorem charAt_append (cs : List Char) (c : Char) (r : List Char) :
    charAt (cs ++ c :: r) (utf8Length cs) = c := by
  simp [charAt, splitBytes_append]

/-- The edits that put names in the place of the literals with the given bytes. -/
def editsOf (text : List Char) (spans : List Span) (names : List String) : List Edit :=
  (spans.zip names).map fun (span, name) => ⟨span, quoted (charAt text span.start) name.toList⟩

/-- Each edit finds its literal where the one before it has left off. -/
theorem applyEdits_joined (before : List Char) (pieces : List (List Char × List Char))
    (rest : List Char) (hl : ∀ p ∈ pieces, p.2 ≠ []) (names : List String)
    (hn : names.length = pieces.length) :
    applyEdits (utf8Length before) (joined pieces rest)
        (editsOf (before ++ joined pieces rest) (spansFrom (utf8Length before) pieces) names) =
      joined (filled pieces names) rest := by
  induction pieces generalizing before names with
  | nil => simp [spansFrom, editsOf, applyEdits, filled, joined]
  | cons piece pieces ih =>
      obtain ⟨gap, literal⟩ := piece
      obtain ⟨name, names, rfl⟩ := List.exists_cons_of_length_eq_add_one hn
      obtain ⟨quote, r, rfl⟩ := List.exists_cons_of_ne_nil (hl _ (List.mem_cons_self ..))
      have hquote : charAt (before ++ joined ((gap, quote :: r) :: pieces) rest)
          (utf8Length before + utf8Length gap) = quote := by
        rw [joined_cons, ← utf8Length_append, ← List.append_assoc, List.cons_append, charAt_append]
      have hih := ih (before ++ gap ++ quote :: r) (fun p hp => hl p (List.mem_cons_of_mem _ hp))
        names (by simpa using hn)
      simp only [List.append_assoc, utf8Length_append] at hih
      simp only [spansFrom, editsOf, List.zip_cons_cons, List.map_cons, applyEdits, hquote]
      rw [joined_cons, Nat.add_sub_cancel_left, splitBytes_append]
      dsimp only
      rw [Nat.add_sub_cancel_left, splitBytes_append]
      dsimp only
      rw [← Nat.add_assoc] at hih
      rw [← editsOf, hih]
      simp [filled, joined]

theorem spansFrom_length (pos : Nat) (pieces : List (List Char × List Char)) :
    (spansFrom pos pieces).length = pieces.length := by
  induction pieces generalizing pos with
  | nil => rfl
  | cons piece pieces ih => simp [spansFrom, ih]

theorem fill_eq_applyEdits (text : String) (ds : List Dependency) (names : List String) :
    fill text ds names =
      String.ofList (applyEdits 0 text.toList (editsOf text.toList (ds.map Dependency.literal) names)) := by
  rw [fill, editsOf, List.zip_map_left, List.map_map]
  rfl

theorem fill_eq {text : String} {ds : List Dependency} {cut : Cut}
    (htext : cut.text = text.toList) (hspans : cut.spans = ds.map Dependency.literal)
    (hl : ∀ l ∈ cut.literals, l ≠ []) {names : List String} (hn : names.length = ds.length) :
    fill text ds names = String.ofList (cut.fill names) := by
  have hlength : cut.pieces.length = ds.length := by
    rw [← spansFrom_length 0, ← List.length_map Dependency.literal, ← hspans]
    rfl
  have happly := applyEdits_joined [] cut.pieces cut.rest
    (fun p hp => hl p.2 (List.mem_map_of_mem hp)) names (by rw [hn, hlength])
  rw [fill_eq_applyEdits, ← hspans, ← htext]
  exact congrArg String.ofList happly

/-- Two cuts of one text into the same literals are the same. -/
theorem pieces_unique {pos : Nat} {pieces others : List (List Char × List Char)}
    {rest rest' : List Char} (hspans : spansFrom pos pieces = spansFrom pos others)
    (htext : joined pieces rest = joined others rest') : pieces = others ∧ rest = rest' := by
  induction pieces generalizing pos others with
  | nil =>
      cases others with
      | nil => exact ⟨rfl, by simpa [joined] using htext⟩
      | cons => cases hspans
  | cons piece pieces ih =>
      cases others with
      | nil => cases hspans
      | cons other others =>
          obtain ⟨gap, literal⟩ := piece
          obtain ⟨gap', literal'⟩ := other
          simp only [spansFrom, List.cons.injEq, Span.mk.injEq] at hspans
          obtain ⟨⟨hgap, hliteral⟩, hspans⟩ := hspans
          rw [hliteral] at hspans
          rw [joined_cons, joined_cons] at htext
          have hgaps := congrArg (splitBytes (utf8Length gap)) htext
          rw [splitBytes_append, show utf8Length gap = utf8Length gap' by omega, splitBytes_append,
            Prod.mk.injEq] at hgaps
          obtain ⟨rfl, hafter⟩ := hgaps
          have hliterals := congrArg (splitBytes (utf8Length literal)) hafter
          rw [splitBytes_append, show utf8Length literal = utf8Length literal' by omega,
            splitBytes_append, Prod.mk.injEq] at hliterals
          obtain ⟨rfl, hjoined⟩ := hliterals
          obtain ⟨rfl, rfl⟩ := ih hspans hjoined
          exact ⟨rfl, rfl⟩

/-- Of two places in a text the one with fewer bytes before it comes first. -/
theorem reaches_of_pos_le {start c d : Cursor} (hc : start.Reaches c) (hd : start.Reaches d)
    (h : c.pos ≤ d.pos) : c.Reaches d := by
  obtain ⟨cs, hcr, hcp⟩ := hc
  obtain ⟨ds, hdr, hdp⟩ := hd
  obtain ⟨es, rfl, hes⟩ | ⟨es, rfl, hes⟩ := List.append_eq_append_iff.1 (hcr.symm.trans hdr)
  · exact ⟨es, hes, by rw [hdp, hcp, utf8Length_append]; omega⟩
  · rw [utf8Length_append] at hcp
    cases es with
    | nil =>
        have hnil : utf8Length [] = 0 := rfl
        exact ⟨[], by simpa using hes.symm, by omega⟩
    | cons e es =>
        have := utf8Length_pos (List.cons_ne_nil e es)
        omega

theorem exists_pieces {start c : Cursor} (hc : start.Reaches c) {spans : List Span}
    (hstands : ∀ s ∈ spans, Literal.Stands start s) (hfirst : ∀ s ∈ spans, c.pos ≤ s.start)
    (hordered : spans.Pairwise fun s t => s.stop ≤ t.start) :
    ∃ pieces rest, joined pieces rest = c.rest ∧ spansFrom c.pos pieces = spans ∧
      ∀ p ∈ pieces, ∃ quote r, (quote = '\'' ∨ quote = '"') ∧ p.2 = quote :: r := by
  induction spans generalizing c with
  | nil => exact ⟨[], c.rest, rfl, rfl, by simp⟩
  | cons span spans ih =>
      obtain ⟨hbefore, hrest⟩ := List.pairwise_cons.1 hordered
      obtain ⟨b, d, hb, ⟨quote, r, hquote, hbr, hd⟩, rfl⟩ := hstands _ (List.mem_cons_self ..)
      obtain ⟨gap, hgap, hgappos⟩ := reaches_of_pos_le hc hb (hfirst _ (List.mem_cons_self ..))
      obtain ⟨inside, hinside, hinsidepos⟩ := hd
      have hnext : b.next = ⟨r, b.pos + quote.utf8Size⟩ := by
        unfold Cursor.next
        rw [hbr]
      rw [hnext] at hinside hinsidepos
      have hbd : b.Reaches d := b.reaches_next.trans ⟨inside, by rw [hnext]; exact hinside, by rw [hnext]; exact hinsidepos⟩
      obtain ⟨pieces, rest, hjoined, hspans, hquotes⟩ := ih (hb.trans hbd)
        (fun s hs => hstands s (List.mem_cons_of_mem _ hs)) hbefore hrest
      refine ⟨(gap, quote :: inside) :: pieces, rest, ?_, ?_, ?_⟩
      · rw [joined_cons, hjoined, hgap, hbr, List.cons_append, ← hinside]
      · rw [spansFrom, utf8Length_cons, ← hgappos, ← Nat.add_assoc, ← hinsidepos, hspans]
      · intro p hp
        obtain rfl | hp := List.mem_cons.1 hp
        · exact ⟨quote, inside, hquote, rfl⟩
        · exact hquotes p hp

end WebModules.Rewrite
