import WebModules.Proofs.Rewrite.Cut
import WebModules.Proofs.Script.Alike

/-!
A name between quotes reads as itself.  The quote and the backslash are the only characters that are
written after a backslash, so a name that holds a line feed or a carriage return does not: the line
ends within it.
-/

namespace WebModules.Rewrite

open Script Lexer Cursor

/-- What stands between the quotes where a name is written. -/
def escaped (quote : Char) (name : List Char) : List Char :=
  name.flatMap fun c => if c = quote ∨ c = '\\' then ['\\', c] else [c]

theorem quoted_eq (quote : Char) (name : List Char) :
    quoted quote name = quote :: (escaped quote name ++ [quote]) := rfl

theorem escaped_cons (quote c : Char) (name : List Char) :
    escaped quote (c :: name) =
      if c = quote ∨ c = '\\' then '\\' :: c :: escaped quote name else c :: escaped quote name := by
  unfold escaped
  rw [List.flatMap_cons]
  split <;> rfl

/-- A name that stays on its line. -/
def OneLine (name : List Char) : Prop := ∀ c ∈ name, c ≠ '\n' ∧ c ≠ '\r'

instance (name : List Char) : Decidable (OneLine name) :=
  inferInstanceAs (Decidable (∀ c ∈ name, c ≠ '\n' ∧ c ≠ '\r'))

variable {quote : Char} {name : List Char}

theorem interior_quoted (hq : IsQuote quote) (hname : OneLine name) (t : List Char) :
    Quoted.interior quote (escaped quote name ++ quote :: t) = (escaped quote name, quote :: t) := by
  induction name with
  | nil => exact Quoted.interior_stop t (hq.ne (by decide) (by decide)) (.inl rfl)
  | cons c name ih =>
      have hih := ih fun d hd => hname d (List.mem_cons_of_mem _ hd)
      obtain ⟨hfeed, hreturn⟩ := hname c (List.mem_cons_self ..)
      rw [escaped_cons]
      split
      · rw [List.cons_append, List.cons_append,
          Quoted.interior_escaped quote c _ fun hc => absurd hc hreturn, hih]
      · rename_i hplain
        rw [not_or] at hplain
        rw [List.cons_append, Quoted.interior_plain _ hplain.2 (by simp [hplain.1, hfeed, hreturn]),
          hih]

theorem pieces_quoted (hq : IsQuote quote) (pos : Nat) :
    (Quoted.piecesFrom pos 0 (escaped quote name)).map Prod.fst =
      name.map fun c => Quoted.Piece.text [c] := by
  induction name generalizing pos with
  | nil => rfl
  | cons c name ih =>
      rw [escaped_cons]
      split
      · rename_i hc
        have hescape : Quoted.escape (c :: escaped quote name) = (.text [c], 1) := by
          obtain rfl | rfl := hc
          · obtain rfl | rfl := hq <;> rfl
          · rfl
        simp only [Quoted.piecesFrom, if_true, hescape, List.map_cons, ih]
      · rename_i hplain
        rw [not_or] at hplain
        simp only [Quoted.piecesFrom, if_neg hplain.2, List.map_cons, ih]

theorem decode_quoted (hq : IsQuote quote) : Quoted.decode (escaped quote name) = name := by
  have hpieces : (Quoted.pieces (escaped quote name)).map Prod.fst =
      name.map fun c => Quoted.Piece.text [c] := pieces_quoted hq 0
  calc Quoted.decode (escaped quote name)
      = ((Quoted.pieces (escaped quote name)).map Prod.fst).flatMap Quoted.Piece.chars := by
        rw [Quoted.decode, List.flatMap_map]
    _ = (name.map fun c => Quoted.Piece.text [c]).flatMap Quoted.Piece.chars := by rw [hpieces]
    _ = name := by simp [List.flatMap_map, Quoted.Piece.chars]

/-- No piece of a name between quotes is an escape that stands for nothing, or an octal one. -/
theorem piece_eq_text (hq : IsQuote quote) {piece : Quoted.Piece × Nat}
    (h : piece ∈ Quoted.pieces (escaped quote name)) : ∃ c pos, piece = (.text [c], pos) := by
  have hfst : piece.1 ∈ (Quoted.pieces (escaped quote name)).map Prod.fst := List.mem_map_of_mem h
  rw [Quoted.pieces, pieces_quoted hq 0] at hfst
  obtain ⟨c, -, hc⟩ := List.mem_map.1 hfst
  exact ⟨c, piece.2, by rw [hc]⟩

theorem firstBad?_quoted (hq : IsQuote quote) : Quoted.firstBad? (escaped quote name) = none := by
  refine List.findSome?_eq_none_iff.2 fun piece h => ?_
  obtain ⟨c, pos, rfl⟩ := piece_eq_text hq h
  rfl

theorem octals_quoted (hq : IsQuote quote) : Quoted.octals (escaped quote name) = [] := by
  refine List.filterMap_eq_nil_iff.2 fun piece h => ?_
  obtain ⟨c, pos, rfl⟩ := piece_eq_text hq ((List.takeWhile_sublist _).subset h)
  rfl

theorem readString_quoted (hq : IsQuote quote) (hname : OneLine name) {c : Cursor} {t : List Char}
    (hc : c.rest = quoted quote name ++ t) :
    ∃ after, readString quote c = .token .string after name none [] ∧ after.rest = t := by
  have hnext : c.next.rest = escaped quote name ++ quote :: t := by
    simp [Cursor.next, hc, quoted_eq]
  refine ⟨Cursor.next ⟨quote :: t, c.pos + 1 + utf8Length (escaped quote name)⟩, ?_, rfl⟩
  unfold readString
  rw [hnext, interior_quoted hq hname]
  dsimp only
  rw [firstBad?_quoted hq, octals_quoted hq, decode_quoted hq]
  dsimp only
  exact if_pos rfl

/-- A place that a text leads to is determined by the bytes before it. -/
theorem rest_eq_of_pos_eq {c d e : Cursor} (hd : c.Reaches d) (he : c.Reaches e)
    (h : d.pos = e.pos) : d.rest = e.rest := by
  obtain ⟨cs, hcs, hpos⟩ := reaches_of_pos_le hd he (Nat.le_of_eq h)
  have hnil : cs = [] := by
    by_contra hne
    have := utf8Length_pos hne
    omega
  rw [hcs, hnil, List.nil_append]

/-- The scans that pass over blanks and comments and then read a token. -/
structure AmongTokens (mode : Mode) (first : Bool) (c : Cursor) : Prop where
  text : mode ≠ .templateText
  edge : mode ≠ .templateEdge
  shebang : ¬(first ∧ c.at? "#!")

theorem AmongTokens.scan_eq {mode : Mode} {first : Bool} {c : Cursor} (h : AmongTokens mode first c) :
    scan mode first c = scanFrom mode (c.rest.length + 1) first [] c := by
  obtain ⟨htext, hedge, hshebang⟩ := h
  unfold scan
  cases mode with
  | templateText => exact absurd rfl htext
  | templateEdge => exact absurd rfl hedge
  | _ => exact if_neg hshebang

theorem isString_of_scannedAt {r : Reading} {c : Cursor}
    (h : (r.scannedAt c).lexeme.token = .string) : r.isString := by
  cases r with
  | token => exact beq_iff_eq.2 h
  | passed => cases h

theorem isString_readTemplateText (c : Cursor) : (readTemplateText c).isString = false := by
  unfold readTemplateText
  dsimp only
  repeat' first | rfl | split

theorem isString_readEdge (c : Cursor) : (readEdge c).isString = false := by
  unfold readEdge
  split <;> rfl

theorem amongTokens_of_string {mode : Mode} {first : Bool} {c : Cursor}
    (h : (scan mode first c).lexeme.token = .string) : AmongTokens mode first c := by
  have htext : mode ≠ .templateText := by
    rintro rfl
    rw [scan_templateText] at h
    exact absurd (isString_of_scannedAt h) (by simp [isString_readTemplateText])
  have hedge : mode ≠ .templateEdge := by
    rintro rfl
    rw [scan_templateEdge] at h
    exact absurd (isString_of_scannedAt h) (by simp [isString_readEdge])
  refine ⟨htext, hedge, fun hshebang => ?_⟩
  unfold scan at h
  cases mode with
  | templateText => exact htext rfl
  | templateEdge => exact hedge rfl
  | _ =>
      dsimp only at h hshebang
      rw [if_pos hshebang] at h
      cases h

/-- What a scan tells that finds a name in the place of a literal which another scan, from `c`, finds
as `s`. -/
structure Named (name : List Char) (c c' : Cursor) (s s' : Scanned) : Prop where
  token : s'.lexeme.token = .string
  afterLineBreak : s'.lexeme.afterLineBreak = s.lexeme.afterLineBreak
  value : s'.lexeme.value = name
  adjacent : s'.lexeme.start = c'.pos ↔ s.lexeme.start = c.pos
  faults : complaints s'.faults <+: complaints s.faults

theorem scan_literal (hq : IsQuote quote) (hname : OneLine name) {mode : Mode} {first : Bool}
    {c c' : Cursor} {gap r t' : List Char} (hc : c.rest = gap ++ quote :: r)
    (hc' : c'.rest = gap ++ (quoted quote name ++ t'))
    (hstring : (scan mode first c).lexeme.token = .string)
    (hstart : (scan mode first c).lexeme.start = c.pos + utf8Length gap) :
    Named name c c' (scan mode first c) (scan mode first c') ∧ (scan mode first c').after.rest = t' := by
  have hb : Border (quote :: r) (quoted quote name ++ t') := .quote hq r _
  have hbeside : Beside (quote :: r) (quoted quote name ++ t') c c' := ⟨gap, hc, hc'⟩
  have hamong := amongTokens_of_string hstring
  have hamong' : AmongTokens mode first c' :=
    ⟨hamong.text, hamong.edge, by rw [hbeside.at? hb (by decide)]; exact hamong.shebang⟩
  rw [hamong.scan_eq] at hstring hstart ⊢
  rw [hamong'.scan_eq]
  obtain ⟨t, token, after, value, fault?, faults, happroaches, ht⟩ :=
    exists_approaches mode ⟨first, [], c⟩
  rw [happroaches.scanFrom_eq (Nat.lt_succ_self _) ht] at hstring hstart ⊢
  have hplace : t.place.rest = quote :: r :=
    rest_eq_of_pos_eq happroaches.reaches (e := ⟨quote :: r, c.pos + utf8Length gap⟩)
      ⟨gap, hc, rfl⟩ hstart
  have hspot : Spot.Alike (quote :: r) (quoted quote name ++ t') ⟨first, [], c⟩ ⟨first, [], c'⟩ :=
    ⟨rfl, rfl, hbeside⟩
  obtain ⟨t', happroaches', hline, hnoted, hbeside'⟩ :=
    happroaches.alike hb hspot (hplace ▸ List.suffix_rfl)
  have hadjacent := hbeside.pos_eq_iff hbeside' happroaches.reaches happroaches'.reaches
  obtain ⟨u, hu, hu'⟩ := hbeside'
  obtain rfl : u = [] := List.self_eq_append_left.1 (hplace.symm.trans hu)
  obtain ⟨after', hread, hafter⟩ := readString_quoted hq hname hu'
  have hread' : readToken mode t'.lineBreak t'.place = .token .string after' name none [] := by
    rw [readToken_quote hq (by rw [Cursor.head?, hu']; rfl), hread]
  rw [happroaches'.scanFrom_eq (Nat.lt_succ_self _) hread']
  have hsame : token = .string := hstring
  refine ⟨⟨rfl, ?_, rfl, hadjacent, complaints faults, ?_⟩, hafter⟩
  · simp [scanned, hline, hsame]
  · simp only [scanned, List.append_nil, hnoted]
    exact List.map_append.symm

end WebModules.Rewrite
