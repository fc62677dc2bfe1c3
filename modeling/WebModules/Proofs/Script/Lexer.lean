import WebModules.Script.Lexer

/-!
Every token is a stretch of the text: the place after it is reached from the place before it by
passing over characters, and a string is spelled with its quotes, unless the last one is missing.
-/

namespace WebModules.Script

theorem utf8Length_append (cs ds : List Char) :
    utf8Length (cs ++ ds) = utf8Length cs + utf8Length ds := by
  induction cs with
  | nil => simp [utf8Length]
  | cons c cs ih =>
      simp only [utf8Length, List.cons_append, List.foldr_cons] at ih ⊢
      omega

theorem utf8Length_cons (c : Char) (cs : List Char) :
    utf8Length (c :: cs) = c.utf8Size + utf8Length cs := rfl

theorem utf8Length_pos {cs : List Char} (h : cs ≠ []) : 0 < utf8Length cs := by
  cases cs with
  | nil => cases h rfl
  | cons c cs =>
      have := c.utf8Size_pos
      rw [utf8Length_cons]
      omega

namespace Cursor

/-- The text goes on from one place to the other. -/
def Reaches (c d : Cursor) : Prop :=
  ∃ cs, c.rest = cs ++ d.rest ∧ d.pos = c.pos + utf8Length cs

theorem Reaches.refl (c : Cursor) : c.Reaches c := ⟨[], rfl, rfl⟩

theorem Reaches.trans {c d e : Cursor} (h : c.Reaches d) (h' : d.Reaches e) : c.Reaches e := by
  obtain ⟨cs, hr, hp⟩ := h
  obtain ⟨ds, hr', hp'⟩ := h'
  exact ⟨cs ++ ds, by simp [hr, hr'], by rw [hp', hp, utf8Length_append]; omega⟩

theorem Reaches.pos_le {c d : Cursor} (h : c.Reaches d) : c.pos ≤ d.pos := by
  obtain ⟨cs, -, hp⟩ := h
  omega

theorem reaches_step (ch : Char) (r : List Char) (pos : Nat) :
    Reaches ⟨ch :: r, pos⟩ ⟨r, pos + ch.utf8Size⟩ := ⟨[ch], rfl, rfl⟩

theorem reaches_split {cs r : List Char} {c : Cursor} (h : cs ++ r = c.rest) :
    c.Reaches ⟨r, c.pos + utf8Length cs⟩ := ⟨cs, h.symm, rfl⟩

theorem reaches_next (c : Cursor) : c.Reaches c.next := by
  obtain ⟨rest, pos⟩ := c
  cases rest with
  | nil => exact .refl _
  | cons ch r => exact reaches_step ch r pos

theorem reaches_skip (n : Nat) (c : Cursor) : c.Reaches (c.skip n) := by
  induction n generalizing c with
  | zero => exact .refl c
  | succ n ih => exact c.reaches_next.trans (ih c.next)

theorem reaches_past {c : Cursor} {cs : List Char} (h : cs <+: c.rest) : c.Reaches (c.past cs) := by
  obtain ⟨r, hr⟩ := h
  exact ⟨cs, by simp [past, ← hr], rfl⟩

theorem reaches_skipWhile (p : Char → Bool) (c : Cursor) : c.Reaches (c.skipWhile p) :=
  reaches_past (List.takeWhile_prefix p)

end Cursor

open Cursor

namespace Quoted

theorem interior_append (quote : Char) (cs : List Char) :
    (interior quote cs).1 ++ (interior quote cs).2 = cs := by
  fun_induction interior quote cs <;> simp_all

/-- What follows the text between two quotes begins with a quote or a line break. -/
theorem interior_after (quote : Char) (cs : List Char) :
    ∀ c ∈ (interior quote cs).2.head?, c = quote ∨ c = '\n' ∨ c = '\r' := by
  fun_induction interior quote cs <;> simp_all

theorem stretch_append (cs : List Char) : (stretch cs).1 ++ (stretch cs).2 = cs := by
  fun_induction stretch cs <;> simp_all

theorem regexBody_append (escaped inClass : Bool) (cs : List Char) :
    (regexBody escaped inClass cs).1 ++ (regexBody escaped inClass cs).2 = cs := by
  induction cs generalizing escaped inClass with
  | nil => rfl
  | cons c r ih =>
      unfold regexBody
      split
      · rfl
      · split
        · simp [ih]
        · split
          · rfl
          · simp [ih]

end Quoted

namespace Lexer

theorem passGap_reaches (gap : Gap) (opened : Nat) (lineBreak : Bool) (cs : List Char) (pos : Nat) :
    Reaches ⟨cs, pos⟩ (passGap gap opened lineBreak cs pos).cursor := by
  fun_induction passGap gap opened lineBreak cs pos with
  | case1 | case2 => exact .refl _
  | case3 | case4 | case6 | case9 | case10 => exact (reaches_step _ _ _).trans ‹_›
  | case5 => exact Reaches.trans ⟨['*', '/'], rfl, rfl⟩ ‹_›
  | case7 => exact Reaches.trans ⟨['/', '/'], rfl, rfl⟩ ‹_›
  | case8 => exact Reaches.trans ⟨['/', '*'], rfl, rfl⟩ ‹_›
  | _ => exact .refl _

theorem wordFrom_reaches (first : Bool) (skip : Nat) (cs : List Char) (pos : Nat) :
    Reaches ⟨cs, pos⟩ (wordFrom first skip cs pos).after := by
  fun_induction wordFrom first skip cs pos with
  | case1 => exact .refl _
  | case2 _ _ _ _ _ ih => exact (reaches_step _ _ _).trans ih
  | case3 | case5 | case6 => exact reaches_step _ _ _
  | case4 _ _ _ _ _ _ _ _ _ ih | case7 _ _ _ _ _ _ _ ih => exact (reaches_step _ _ _).trans ih
  | case8 => exact .refl _

/-- The place after what was read. -/
def Reading.after : Reading → Cursor
  | .token _ after _ _ _ => after
  | .passed after _ => after

/-- Whether a string was read. -/
def Reading.isString : Reading → Bool
  | .token found _ _ _ _ => found == .string
  | .passed _ _ => false

/-- From one place to the other stands a quote and what follows it. -/
def Quotes (c d : Cursor) : Prop :=
  ∃ quote r, (quote = '\'' ∨ quote = '"') ∧ c.rest = quote :: r ∧ c.next.Reaches d

/-- What a string that was read stands for. -/
def Reading.value : Reading → List Char
  | .token _ _ value _ _ => value
  | .passed _ _ => []

/-- The text from one place to the other is a string of the given value: a quote, then what the first such quote that no
escape takes or the first line break ends, where each escape stands for something, and then that quote unless it is
missing. -/
structure Spelling (value : List Char) (c d : Cursor) (quote : Char) (inside rest : List Char) : Prop where
  isQuote : quote = '\'' ∨ quote = '"'
  text_eq : c.rest = quote :: (inside ++ rest)
  interior_eq : Quoted.interior quote (inside ++ rest) = (inside, rest)
  sound : Quoted.firstBad? inside = none
  decode_eq : Quoted.decode inside = value
  reaches : (⟨rest, c.pos + 1 + utf8Length inside⟩ : Cursor).Reaches d
  closed : d.rest = rest ∧ rest.head? ≠ some quote ∨ rest = quote :: d.rest

def Spells (value : List Char) (c d : Cursor) : Prop := ∃ quote inside rest, Spelling value c d quote inside rest

/-- What was read from a place on ends at a later place, and spells a string if it is one. -/
structure Reading.From (c : Cursor) (r : Reading) : Prop where
  reaches : c.Reaches r.after
  spells : r.isString → Spells r.value c r.after

variable {c d : Cursor}

theorem utf8Size_of_quote {quote : Char} (hq : quote = '\'' ∨ quote = '"') : quote.utf8Size = 1 := by
  obtain rfl | rfl := hq <;> rfl

theorem next_of_quote {quote : Char} {r : List Char} (hq : quote = '\'' ∨ quote = '"') (hc : c.rest = quote :: r) :
    c.next = ⟨r, c.pos + 1⟩ := by
  unfold Cursor.next
  rw [hc, ← utf8Size_of_quote hq]

theorem Spells.quotes {value : List Char} (h : Spells value c d) : Quotes c d := by
  obtain ⟨quote, inside, rest, h⟩ := h
  refine ⟨quote, inside ++ rest, h.isQuote, h.text_eq, ?_⟩
  rw [next_of_quote h.isQuote h.text_eq]
  exact Reaches.trans ⟨inside, rfl, rfl⟩ h.reaches

theorem from_malformed (h : c.Reaches d) (complaint : Complaint) (pos : Nat) (faults : List Fault) :
    (malformed d complaint pos faults).From c := ⟨h, by simp [malformed, Reading.isString]⟩

theorem from_token {token : Token} (h : c.Reaches d) (ht : (token == .string) = false)
    (value : List Char) (fault? : Option Fault) (faults : List Fault) :
    (Reading.token token d value fault? faults).From c := ⟨h, by simp [Reading.isString, ht]⟩

theorem readWord_from (c : Cursor) : (readWord c).From c := by
  have h := wordFrom_reaches true 0 c.rest c.pos
  unfold readWord
  dsimp only
  split
  · exact from_malformed h _ _ _
  · split
    · exact from_malformed h _ _ _
    · exact from_token h rfl _ _ _

theorem readDigits_reaches (radix : Nat) (c : Cursor) : c.Reaches (readDigits radix c).after :=
  reaches_past (List.takeWhile_prefix _)

theorem endNumber_from (h : c.Reaches d) (faults : List Fault) : (endNumber d faults).From c := by
  unfold endNumber
  split
  · exact from_malformed h _ _ _
  · exact from_token h rfl _ _ _

theorem readExponent_from (h : c.Reaches d) (faults : List Fault) :
    (readExponent d faults).From c := by
  unfold readExponent
  split
  · have hmark := h.trans d.reaches_next
    dsimp only
    split
    · exact from_malformed hmark _ _ _
    · have hrun (e : Cursor) (he : d.next.Reaches e) :=
        (hmark.trans he).trans (readDigits_reaches 10 e)
      split
      · split
        · exact from_malformed (hrun _ d.next.reaches_next) _ _ _
        · exact endNumber_from (hrun _ d.next.reaches_next) _
      · split
        · exact from_malformed (hrun _ (.refl _)) _ _ _
        · exact endNumber_from (hrun _ (.refl _)) _
  · exact endNumber_from h _

theorem readFraction_from (h : c.Reaches d) (faults : List Fault) :
    (readFraction d faults).From c := by
  unfold readFraction
  split
  · exact readExponent_from ((h.trans d.reaches_next).trans (readDigits_reaches 10 _)) _
  · exact readExponent_from h _

theorem readDecimal_from (c : Cursor) : (readDecimal c).From c := by
  have hrun := readDigits_reaches 10 c
  unfold readDecimal
  split
  · exact readFraction_from (.refl c) _
  · dsimp only
    split
    · exact from_token (hrun.trans (reaches_next _)) rfl _ _ _
    · split
      · split
        · exact readFraction_from hrun _
        · split
          · exact from_malformed hrun _ _ _
          · exact from_token hrun rfl _ _ _
      · exact readFraction_from hrun _

theorem readRadix_from (radix : Nat) (c : Cursor) : (readRadix radix c).From c := by
  have hrun := (c.reaches_next.trans c.next.reaches_next).trans (readDigits_reaches radix _)
  unfold readRadix
  dsimp only
  split
  · exact from_malformed hrun _ _ _
  · split
    · exact from_token (hrun.trans (reaches_next _)) rfl _ _ _
    · exact endNumber_from hrun _

theorem readNumber_from (c : Cursor) : (readNumber c).From c := by
  unfold readNumber
  split
  · repeat' first | exact readRadix_from _ c | exact readDecimal_from c | split
  · exact readDecimal_from c

theorem readString_from {quote : Char} {r : List Char} (hq : quote = '\'' ∨ quote = '"')
    (hc : c.rest = quote :: r) : (readString quote c).From c := by
  have hnext := next_of_quote hq hc
  obtain ⟨inside, rest, hsplit⟩ : ∃ inside rest, Quoted.interior quote r = (inside, rest) := ⟨_, _, rfl⟩
  obtain rfl : inside ++ rest = r := by simpa [hsplit] using Quoted.interior_append quote r
  have hinside : c.Reaches ⟨rest, c.pos + 1 + utf8Length inside⟩ := by
    refine c.reaches_next.trans ?_
    rw [hnext]
    exact reaches_split rfl
  have hstring (d : Cursor) (faults : List Fault) (hsound : Quoted.firstBad? inside = none)
      (hd : Reaches ⟨rest, c.pos + 1 + utf8Length inside⟩ d)
      (hend : d.rest = rest ∧ rest.head? ≠ some quote ∨ rest = quote :: d.rest) :
      (Reading.token .string d (Quoted.decode inside) none faults).From c :=
    ⟨hinside.trans hd, fun _ => ⟨quote, inside, rest, hq, hc, hsplit, hsound, rfl, hd, hend⟩⟩
  unfold readString
  rw [hnext]
  dsimp only
  rw [hsplit]
  dsimp only
  split
  · exact from_malformed hinside _ _ _
  · rename_i hsound
    split
    · rename_i hquote
      obtain ⟨after, rfl⟩ := List.head?_eq_some_iff.1 hquote
      exact hstring _ _ hsound (reaches_next _) (.inr rfl)
    · rename_i hquote
      exact hstring _ _ hsound (.refl _) (.inl ⟨rfl, hquote⟩)

theorem readRegex_from {r : List Char} (hc : c.rest = '/' :: r) : (readRegex c).From c := by
  have hnext : c.next = ⟨r, c.pos + 1⟩ := by
    unfold Cursor.next
    rw [hc]
    rfl
  have hinside : c.Reaches ⟨(Quoted.regexBody false false r).2,
      c.pos + 1 + utf8Length (Quoted.regexBody false false r).1⟩ := by
    refine c.reaches_next.trans ?_
    rw [hnext]
    exact reaches_split (Quoted.regexBody_append false false r)
  unfold readRegex
  rw [hnext]
  dsimp only
  split
  · exact from_token ((hinside.trans (reaches_next _)).trans
      (reaches_past (List.takeWhile_prefix _))) rfl _ _ _
  · exact from_malformed hinside _ _ _

theorem readTemplateText_from (c : Cursor) : (readTemplateText c).From c := by
  have hinside := reaches_split (Quoted.stretch_append c.rest)
  unfold readTemplateText
  dsimp only
  split
  · exact from_malformed hinside _ _ _
  · split
    · exact from_token hinside rfl _ _ _
    · exact from_token hinside rfl _ _ _

theorem readSign_from (mode : Mode) (afterLineBreak : Bool) (c : Cursor) :
    (readSign mode afterLineBreak c).From c := by
  unfold readSign
  repeat' split
  · exact from_token c.reaches_next rfl _ _ _
  · exact from_token c.reaches_next rfl _ _ _
  · exact ⟨reaches_skipWhile _ c, by simp [Reading.isString]⟩
  · exact ⟨reaches_skipWhile _ c, by simp [Reading.isString]⟩
  · exact from_token (reaches_skip _ c) rfl _ _ _
  · exact from_malformed c.reaches_next _ _ _
  · exact from_token (.refl c) rfl _ _ _

theorem readToken_from (mode : Mode) (afterLineBreak : Bool) (c : Cursor) :
    (readToken mode afterLineBreak c).From c := by
  unfold readToken
  split
  · exact from_token (.refl c) rfl _ _ _
  · rename_i ch r hc
    split
    · rename_i hslash
      exact readRegex_from (hslash.2 ▸ hc)
    · split
      · exact readWord_from c
      · split
        · exact readNumber_from c
        · split
          · exact readNumber_from c
          · split
            · rename_i hquote
              exact readString_from hquote hc
            · exact readSign_from mode afterLineBreak c

theorem readEdge_from (c : Cursor) : (readEdge c).From c := by
  unfold readEdge
  split
  · exact from_token c.reaches_next rfl _ _ _
  · exact from_token (c.reaches_next.trans c.next.reaches_next) rfl _ _ _
  · exact from_malformed c.reaches_next _ _ _
  · exact from_token (.refl c) rfl _ _ _

/-- A lexeme is the text from some place after the first one up to the second one. -/
def Lies (l : Lexeme) (c d : Cursor) : Prop :=
  ∃ b, c.Reaches b ∧ b.Reaches d ∧ l.start = b.pos ∧ l.stop = d.pos ∧
    (l.token = .string → Spells l.value b d)

theorem lies_scanned {b : Cursor} (hb : c.Reaches b) {token : Token} {after : Cursor}
    {value : List Char} {fault? : Option Fault} {faults : List Fault}
    (h : (Reading.token token after value fault? faults).From b) (afterLineBreak : Bool)
    (noted : List Fault) :
    Lies (scanned b afterLineBreak noted token after value fault? faults).lexeme c
      (scanned b afterLineBreak noted token after value fault? faults).after :=
  ⟨b, hb, h.reaches, rfl, rfl, fun ht => h.spells (by simpa [Reading.isString, scanned] using ht)⟩

theorem scanFrom_lies (mode : Mode) (fuel : Nat) (lineBreak : Bool) (noted : List Fault)
    (c : Cursor) :
    Lies (scanFrom mode fuel lineBreak noted c).lexeme c (scanFrom mode fuel lineBreak noted c).after := by
  induction fuel generalizing lineBreak noted c with
  | zero => exact lies_scanned (.refl c) (from_token (.refl c) rfl _ _ _) _ _
  | succ fuel ih =>
      have hgap := passGap_reaches .blank 0 lineBreak c.rest c.pos
      have hread := readToken_from mode (passGap .blank 0 lineBreak c.rest c.pos).lineBreak
        (passGap .blank 0 lineBreak c.rest c.pos).cursor
      unfold scanFrom
      dsimp only
      split
      · rename_i heq
        rw [heq] at hread
        exact lies_scanned hgap hread _ _
      · rename_i heq
        rw [heq] at hread
        obtain ⟨b, hb, h⟩ := ih _ _ _
        exact ⟨b, (hgap.trans hread.reaches).trans hb, h⟩

theorem scan_lies (mode : Mode) (first : Bool) (c : Cursor) :
    Lies (scan mode first c).lexeme c (scan mode first c).after := by
  have htemplate (reading : Reading) (h : reading.From c) :
      ∀ s, s = (match reading with
        | .token token after value fault? faults =>
          scanned c false [] token after value fault? faults
        | .passed after fault => scanned c false [fault] .finish after [] none []) →
      Lies s.lexeme c s.after := by
    rintro s rfl
    cases reading with
    | token => exact lies_scanned (.refl c) h _ _
    | passed => exact lies_scanned (.refl c) (from_token h.reaches rfl _ _ _) _ _
  unfold scan
  dsimp only
  split
  · exact htemplate _ (readTemplateText_from c) _ rfl
  · exact htemplate _ (readEdge_from c) _ rfl
  · split
    · exact lies_scanned (.refl c) (from_token (reaches_skipWhile _ c) rfl _ _ _) _ _
    · exact scanFrom_lies mode _ first [] c

/-! A slash that is read as a sign opens a regular expression where one is wanted. -/

section Slash

variable {mode : Mode} {afterLineBreak : Bool}

/-- The signs that begin with a slash. -/
def IsSlash (token : Token) : Prop := token = .sign .divide ∨ token = .sign (.assignWith .divide)

/-- The token that was read, if it is one. -/
def Reading.token? : Reading → Option Token
  | .token found _ _ _ _ => some found
  | .passed _ _ => none

/-- Unless it is another token, what was read is passed over or a sign that begins with a slash. -/
def Reading.MayBeSlash (r : Reading) : Prop := ∀ token ∈ r.token?, IsSlash token

theorem readRegex_token (c : Cursor) : ∃ token, (readRegex c).token? = some token ∧ token ≠ .finish := by
  unfold readRegex
  dsimp only
  split
  · exact ⟨_, rfl, nofun⟩
  · exact ⟨_, rfl, nofun⟩

theorem readSign_regex (h : (readSign mode afterLineBreak c).MayBeSlash) :
    readSign .regex afterLineBreak c = readSign mode afterLineBreak c := by
  unfold readSign at h ⊢
  split at h
  · simpa [IsSlash] using h (.sign .less) rfl
  split at h
  · simpa [IsSlash] using h (.sign .greater) rfl
  rename_i hless hgreater
  rw [if_neg hless, if_neg hgreater, if_neg (by simp), if_neg (by simp)]

/-- Only where a slash comes next is a regular expression read in another way. -/
theorem readToken_regex (h : (readToken mode afterLineBreak c).MayBeSlash) :
    readToken .regex afterLineBreak c = readToken mode afterLineBreak c ∨
      ∃ token, (readToken .regex afterLineBreak c).token? = some token ∧ token ≠ .finish := by
  unfold readToken at h ⊢
  cases hc : c.rest with
  | nil => exact .inl rfl
  | cons ch r =>
      rw [hc] at h
      dsimp only at h ⊢
      by_cases hslash : ch = '/'
      · simp only [hslash, and_self, if_true]
        exact .inr (readRegex_token c)
      · simp only [hslash, and_false, if_false] at h ⊢
        refine .inl ?_
        split
        · rfl
        split
        · rfl
        split
        · rfl
        split
        · rfl
        · rename_i hword hdigit hdot hquote
          rw [if_neg hword, if_neg hdigit, if_neg hdot, if_neg hquote] at h
          exact readSign_regex h

/-- The token that is scanned is the one that is read after the gap, if one is. -/
theorem token_scanFrom {fuel : Nat} {lineBreak : Bool} {noted : List Fault} {gap : Passed} {token : Token}
    (hgap : passGap .blank 0 lineBreak c.rest c.pos = gap)
    (h : (readToken mode gap.lineBreak gap.cursor).token? = some token) :
    (scanFrom mode (fuel + 1) lineBreak noted c).lexeme.token = token := by
  unfold scanFrom
  rw [hgap]
  dsimp only
  split
  · rename_i heq
    rw [heq] at h
    exact Option.some.inj h
  · rename_i heq
    rw [heq] at h
    cases h

theorem scanFrom_regex {fuel : Nat} {lineBreak : Bool} {noted noted' : List Fault}
    (h : IsSlash (scanFrom mode fuel lineBreak noted c).lexeme.token) :
    (scanFrom .regex fuel lineBreak noted' c).lexeme.token ≠ .finish := by
  induction fuel generalizing lineBreak noted noted' c with
  | zero => simp [scanFrom, scanned, IsSlash] at h
  | succ fuel ih =>
      obtain ⟨gap, hgap⟩ : ∃ gap, passGap .blank 0 lineBreak c.rest c.pos = gap := ⟨_, rfl⟩
      have hslash (token : Token) (ht : (readToken mode gap.lineBreak gap.cursor).token? = some token) :
          IsSlash token := token_scanFrom hgap ht ▸ h
      obtain hsame | ⟨token, htoken, hfinish⟩ := readToken_regex hslash
      · cases hread : readToken mode gap.lineBreak gap.cursor with
        | token found =>
            have hfound : IsSlash found := hslash found (by rw [hread]; rfl)
            have hnext : (readToken .regex gap.lineBreak gap.cursor).token? = some found := by
              rw [hsame, hread]
              rfl
            rw [token_scanFrom hgap hnext]
            rintro rfl
            simp [IsSlash] at hfound
        | passed after fault =>
            unfold scanFrom at h ⊢
            simp only [hgap, hsame, hread] at h ⊢
            exact ih h
      · rwa [token_scanFrom hgap htoken]

theorem readTemplateText_token {token : Token} (h : (readTemplateText c).token? = some token) : ¬ IsSlash token := by
  unfold readTemplateText at h
  dsimp only at h
  repeat' split at h
  all_goals
    cases h
    simp [IsSlash]

theorem readEdge_token {token : Token} (h : (readEdge c).token? = some token) : ¬ IsSlash token := by
  unfold readEdge at h
  split at h
  all_goals
    cases h
    simp [IsSlash]

/-- Where a sign begins with a slash, a regular expression can be read. -/
theorem scan_regex {first : Bool} (h : IsSlash (scan mode first c).lexeme.token) :
    (scan .regex first c).lexeme.token ≠ .finish := by
  unfold scan at h ⊢
  dsimp only at h ⊢
  split
  · simp [scanned]
  · rename_i hmark
    split at h
    · have hnot := @readTemplateText_token c
      cases hread : readTemplateText c with
      | token found =>
          rw [hread] at h hnot
          exact absurd h (hnot rfl)
      | passed =>
          rw [hread] at h
          simp [scanned, IsSlash] at h
    · have hnot := @readEdge_token c
      cases hread : readEdge c with
      | token found =>
          rw [hread] at h hnot
          exact absurd h (hnot rfl)
      | passed =>
          rw [hread] at h
          simp [scanned, IsSlash] at h
    · rw [if_neg hmark] at h
      exact scanFrom_regex h

end Slash

end Lexer

end WebModules.Script
