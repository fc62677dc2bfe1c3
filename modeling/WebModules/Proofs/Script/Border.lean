import WebModules.Proofs.Script.Lexer

/-!
Reading a token never looks past a quote that stands behind it.  Two texts that agree up to such a
quote, and go on differently after it, are read alike wherever the token ends before the quote.
-/

namespace WebModules.Script

/-- The characters that open a string. -/
def IsQuote (ch : Char) : Prop := ch = '\'' ∨ ch = '"'

theorem IsQuote.ne {q ch : Char} (h : IsQuote q) (h1 : ch ≠ '\'') (h2 : ch ≠ '"') : q ≠ ch := by
  rintro rfl
  obtain h | h := h
  · exact h1 h
  · exact h2 h

theorem IsQuote.apply_eq_false {q : Char} (h : IsQuote q) {p : Char → Bool}
    (h1 : p '\'' = false) (h2 : p '"' = false) : p q = false := by
  obtain rfl | rfl := h
  · exact h1
  · exact h2

/-- Two texts that both end, or that begin with the same quote. -/
inductive Border : List Char → List Char → Prop
  | ends : Border [] []
  | quote {q : Char} (h : IsQuote q) (r r' : List Char) : Border (q :: r) (q :: r')

/-- The class of the characters that `p` holds of has no quote in it. -/
def Spares (p : Char → Bool) : Prop := ∀ q, IsQuote q → p q = false

theorem spares_iff {p : Char → Bool} : Spares p ↔ p '\'' = false ∧ p '"' = false := by
  constructor
  · intro h
    exact ⟨h _ (.inl rfl), h _ (.inr rfl)⟩
  · intro h q hq
    exact hq.apply_eq_false h.1 h.2

namespace Border

variable {v v' : List Char}

theorem symm (h : Border v v') : Border v' v := by
  cases h with
  | ends => exact .ends
  | quote h r r' => exact .quote h r' r

theorem head?_append (h : Border v v') (u : List Char) : (u ++ v').head? = (u ++ v).head? := by
  cases u with
  | nil => cases h <;> rfl
  | cons => rfl

theorem isEmpty_append (h : Border v v') (u : List Char) :
    (u ++ v').isEmpty = (u ++ v).isEmpty := by
  cases u with
  | nil => cases h <;> rfl
  | cons => rfl

/-- A text that goes on with another character than a quote does so before the border. -/
theorem exists_cons (h : Border v v') {u r : List Char} {ch : Char} (hr : u ++ v = ch :: r)
    (hch : ¬IsQuote ch) : ∃ u', u = ch :: u' ∧ r = u' ++ v := by
  cases u with
  | nil =>
      cases h with
      | ends => cases hr
      | quote hq => cases hr; exact absurd hq hch
  | cons a u =>
      cases hr
      exact ⟨u, rfl, rfl⟩

theorem head?_ne (h : Border v v') {u : List Char} {ch : Char} (hu : ∀ r, u ≠ ch :: r)
    (hch : ¬IsQuote ch) : (u ++ v).head? ≠ some ch := by
  intro hhead
  obtain ⟨r, hr⟩ := List.head?_eq_some_iff.1 hhead
  obtain ⟨u', hu', -⟩ := h.exists_cons hr hch
  exact hu u' hu'

theorem takeWhile (h : Border v v') {p : Char → Bool} (hp : Spares p) (u : List Char) :
    (u ++ v).takeWhile p = u.takeWhile p := by
  induction u with
  | nil =>
      cases h with
      | ends => rfl
      | quote hq => simp [hp _ hq]
  | cons a u ih => simp [List.takeWhile_cons, ih]

theorem take_takeWhile (h : Border v v') {p : Char → Bool} (hp : Spares p) (n : Nat)
    (u : List Char) : ((u ++ v).take n).takeWhile p = (u.take n).takeWhile p := by
  induction u generalizing n with
  | nil =>
      cases h with
      | ends => rfl
      | quote hq => cases n <;> simp [hp _ hq]
  | cons a u ih => cases n <;> simp [List.takeWhile_cons, ih]

/-- A mark without quotes stands at a place or not, whatever comes after the border. -/
theorem isPrefixOf (h : Border v v') {s : List Char} (hs : ∀ ch ∈ s, ¬IsQuote ch) (u : List Char) :
    s.isPrefixOf (u ++ v) = s.isPrefixOf u := by
  induction u generalizing s with
  | nil =>
      cases s with
      | nil => rfl
      | cons a s =>
          cases h with
          | ends => rfl
          | quote hq =>
              have hne : a ≠ _ := fun he => hs a (List.mem_cons_self ..) (he ▸ hq)
              simp [List.isPrefixOf, hne]
  | cons b u ih =>
      cases s with
      | nil => rfl
      | cons a s =>
          simp only [List.cons_append, List.isPrefixOf,
            ih fun ch hch => hs ch (List.mem_cons_of_mem _ hch)]

end Border

theorem eq_nil_of_forall_ne_cons {r : List Char} (h : ∀ a r', r ≠ a :: r') : r = [] := by
  cases r with
  | nil => rfl
  | cons a r => exact absurd rfl (h a r)

/-- What is left of a text is shorter than the text once something of it has been read. -/
theorem not_suffix_of_length_lt {x v : List Char} (h : x.length < v.length) : ¬v <:+ x :=
  fun hs => absurd hs.length_le (Nat.not_le_of_lt h)

namespace Cursor

/-- Places of two texts that go on in the same way up to their borders `v` and `v'`. -/
def Beside (v v' : List Char) (c d : Cursor) : Prop := ∃ u, c.rest = u ++ v ∧ d.rest = u ++ v'

/-- The border has not been passed. -/
def Within (v : List Char) (c : Cursor) : Prop := v <:+ c.rest

variable {v v' : List Char} {c c' d d' : Cursor}

theorem Reaches.length_le (h : c.Reaches d) : d.rest.length ≤ c.rest.length := by
  obtain ⟨cs, hr, -⟩ := h
  rw [hr, List.length_append]
  omega

theorem Within.of_reaches (h : d.Within v) (hd : c.Reaches d) : c.Within v := by
  obtain ⟨cs, hr, -⟩ := hd
  exact h.trans ⟨cs, hr.symm⟩

theorem Beside.head? (h : Beside v v' c c') (hb : Border v v') : c'.head? = c.head? := by
  obtain ⟨u, hc, hc'⟩ := h
  rw [Cursor.head?, Cursor.head?, hc, hc']
  exact hb.head?_append u

theorem Beside.next (h : Beside v v' c c') (hb : Border v v') {ch : Char} (hch : c.head? = some ch)
    (hq : ¬IsQuote ch) : Beside v v' c.next c'.next := by
  obtain ⟨u, hc, hc'⟩ := h
  obtain ⟨r, hr⟩ : ∃ r, c.rest = ch :: r := List.head?_eq_some_iff.1 hch
  obtain ⟨u', rfl, rfl⟩ := hb.exists_cons (hc.symm.trans hr) hq
  refine ⟨u', ?_, ?_⟩
  · unfold Cursor.next
    rw [hr]
  · unfold Cursor.next
    rw [hc', List.cons_append]

theorem Beside.next_of_within (h : Beside v v' c c') (hb : Border v v') (hw : c.next.Within v) :
    Beside v v' c.next c'.next := by
  obtain ⟨u, hc, hc'⟩ := h
  cases u with
  | nil =>
      cases hb with
      | ends =>
          refine ⟨[], ?_, ?_⟩
          · unfold Cursor.next
            simp [hc]
          · unfold Cursor.next
            simp [hc']
      | quote hq r r' =>
          refine absurd hw (not_suffix_of_length_lt ?_)
          unfold Cursor.next
          simp [hc]
  | cons a u =>
      refine ⟨u, ?_, ?_⟩
      · unfold Cursor.next
        rw [hc, List.cons_append]
      · unfold Cursor.next
        rw [hc', List.cons_append]

theorem Beside.takeWhile (h : Beside v v' c c') (hb : Border v v') {p : Char → Bool}
    (hp : Spares p) : c'.rest.takeWhile p = c.rest.takeWhile p := by
  obtain ⟨u, hc, hc'⟩ := h
  rw [hc, hc', hb.takeWhile hp, hb.symm.takeWhile hp]

theorem Beside.past (h : Beside v v' c c') (hb : Border v v') {p : Char → Bool} (hp : Spares p) :
    Beside v v' (c.past (c.rest.takeWhile p)) (c'.past (c.rest.takeWhile p)) := by
  obtain ⟨u, hc, hc'⟩ := h
  have hle : (u.takeWhile p).length ≤ u.length := (List.takeWhile_prefix p).length_le
  rw [hc, hb.takeWhile hp]
  exact ⟨u.drop (u.takeWhile p).length,
    by rw [Cursor.past, hc, List.drop_append_of_le_length hle],
    by rw [Cursor.past, hc', List.drop_append_of_le_length hle]⟩

theorem Beside.at? (h : Beside v v' c c') (hb : Border v v') {s : String}
    (hs : ∀ ch ∈ s.toList, ¬IsQuote ch) : c'.at? s = c.at? s := by
  obtain ⟨u, hc, hc'⟩ := h
  rw [Cursor.at?, Cursor.at?, hc, hc', hb.isPrefixOf hs, hb.symm.isPrefixOf hs]

theorem skip_rest (n : Nat) (c : Cursor) : (c.skip n).rest = c.rest.drop n := by
  induction n generalizing c with
  | zero => rfl
  | succ n ih =>
      rw [skip, ih, Cursor.next]
      obtain ⟨rest, pos⟩ := c
      cases rest <;> simp

theorem Beside.skip (h : Beside v v' c c') (hb : Border v v') {s : String}
    (hs : ∀ ch ∈ s.toList, ¬IsQuote ch) (hat : c.at? s) :
    Beside v v' (c.skip s.length) (c'.skip s.length) := by
  obtain ⟨u, hc, hc'⟩ := h
  rw [Cursor.at?, hc, hb.isPrefixOf hs, List.isPrefixOf_iff_prefix] at hat
  have hle : s.length ≤ u.length := hat.length_le
  exact ⟨u.drop s.length, by rw [skip_rest, hc, List.drop_append_of_le_length hle],
    by rw [skip_rest, hc', List.drop_append_of_le_length hle]⟩

/-- What is skipped may hold quotes, but does not reach the border. -/
theorem Beside.skipWhile (h : Beside v v' c c') (hb : Border v v') (p : Char → Bool)
    (hw : (c.skipWhile p).Within v) : Beside v v' (c.skipWhile p) (c'.skipWhile p) := by
  obtain ⟨u, hc, hc'⟩ := h
  simp only [Within, Beside, Cursor.skipWhile, Cursor.past, hc, hc'] at hw ⊢
  clear hc hc'
  induction u with
  | nil =>
      cases hb with
      | ends => exact ⟨[], rfl, rfl⟩
      | @quote q hq r r' =>
          by_cases hp : p q
          · refine absurd hw (not_suffix_of_length_lt ?_)
            simp only [List.nil_append, List.takeWhile_cons, hp, if_true, List.length_cons,
              List.length_drop]
            omega
          · exact ⟨[], by simp [hp], by simp [hp]⟩
  | cons a u ih =>
      by_cases hp : p a
      · simp only [List.cons_append, List.takeWhile_cons, hp, if_true, List.length_cons,
          List.drop_succ_cons] at hw ⊢
        exact ih hw
      · exact ⟨a :: u, by simp [hp], by simp [hp]⟩

theorem Beside.eq_append {u w : List Char} (hc : c.rest = u ++ v) (hd : d.rest = w ++ v)
    (hr : c.Reaches d) : ∃ cs, u = cs ++ w ∧ d.pos = c.pos + utf8Length cs := by
  obtain ⟨cs, hcs, hpos⟩ := hr
  rw [hc, hd, ← List.append_assoc] at hcs
  exact ⟨cs, List.append_cancel_right hcs, hpos⟩

theorem Beside.pos_eq_iff (h : Beside v v' c c') (hd : Beside v v' d d') (hr : c.Reaches d)
    (hr' : c'.Reaches d') : d'.pos = c'.pos ↔ d.pos = c.pos := by
  obtain ⟨u, hc, hc'⟩ := h
  obtain ⟨w, hw, hw'⟩ := hd
  obtain ⟨cs, rfl, hpos⟩ := eq_append hc hw hr
  obtain ⟨cs', hcs, hpos'⟩ := eq_append hc' hw' hr'
  rw [hpos, hpos', List.append_cancel_right hcs]
  omega

/-- What stands between two places of one text stands between the places beside them. -/
theorem Beside.upTo (h : Beside v v' c c') (hd : Beside v v' d d') (hr : c.Reaches d) :
    c'.upTo d' = c.upTo d := by
  obtain ⟨u, hc, hc'⟩ := h
  obtain ⟨w, hw, hw'⟩ := hd
  obtain ⟨cs, hu, -⟩ := eq_append hc hw hr
  unfold Cursor.upTo
  rw [hc, hc', hw, hw', hu]
  simp

end Cursor

open Cursor

namespace Quoted

variable {v v' : List Char}

theorem escape_digits {r r' : List Char} (h : r.head? ≠ some '\x7b') (h' : r'.head? ≠ some '\x7b')
    (hd : (r'.take 4).takeWhile isHexDigit = (r.take 4).takeWhile isHexDigit) :
    escape ('u' :: r') = escape ('u' :: r) := by
  rw [escape, escape, hd]
  · intro s hs
    exact h (by rw [hs]; rfl)
  · intro s hs
    exact h' (by rw [hs]; rfl)

/-- The escape of a code point looks at digits and braces only. -/
theorem escape_border (hb : Border v v') {u : List Char} (hu : (u ++ v).head? = some 'u') :
    escape (u ++ v') = escape (u ++ v) := by
  have hhex : Spares isHexDigit := spares_iff.2 (by decide)
  obtain ⟨r, hr⟩ := List.head?_eq_some_iff.1 hu
  obtain ⟨u, rfl, rfl⟩ := hb.exists_cons hr (by simp [IsQuote])
  have hhead := hb.head?_append u
  by_cases hbrace : (u ++ v).head? = some '\x7b'
  · obtain ⟨r, hr⟩ := List.head?_eq_some_iff.1 hbrace
    obtain ⟨u, rfl, rfl⟩ := hb.exists_cons hr (by simp [IsQuote])
    have hdrop : ((u ++ v').drop (u.takeWhile isHexDigit).length).head? =
        ((u ++ v).drop (u.takeWhile isHexDigit).length).head? := by
      have hle : (u.takeWhile isHexDigit).length ≤ u.length := (List.takeWhile_prefix _).length_le
      rw [List.drop_append_of_le_length hle, List.drop_append_of_le_length hle, hb.head?_append]
    simp only [List.cons_append, escape, hb.takeWhile hhex, hb.symm.takeWhile hhex, hdrop]
  · have hdigits : ((u ++ v').take 4).takeWhile isHexDigit =
        ((u ++ v).take 4).takeWhile isHexDigit := by
      rw [hb.take_takeWhile hhex, hb.symm.take_takeWhile hhex]
    exact escape_digits hbrace (hhead ▸ hbrace) hdigits

theorem length_interior_le (quote : Char) (cs : List Char) :
    (interior quote cs).2.length ≤ cs.length := by
  have h := congrArg List.length (interior_append quote cs)
  rw [List.length_append] at h
  omega

theorem interior_escaped (quote c : Char) (r : List Char) (h : c = '\r' → r.head? ≠ some '\n') :
    interior quote ('\\' :: c :: r) =
      ('\\' :: c :: (interior quote r).1, (interior quote r).2) := by
  rw [interior]
  intro r' hc hr
  exact h hc (by rw [hr]; rfl)

theorem interior_stop {quote c : Char} (r : List Char) (hc : c ≠ '\\')
    (h : c = quote ∨ c = '\n' ∨ c = '\r') : interior quote (c :: r) = ([], c :: r) := by
  rw [interior, if_pos h]
  · exact fun _ hc' => absurd hc' hc
  · exact fun _ _ hc' => absurd hc' hc

theorem interior_plain {quote c : Char} (r : List Char) (hc : c ≠ '\\')
    (h : ¬(c = quote ∨ c = '\n' ∨ c = '\r')) :
    interior quote (c :: r) = (c :: (interior quote r).1, (interior quote r).2) := by
  rw [interior, if_neg h]
  · exact fun _ hc' => absurd hc' hc
  · exact fun _ _ hc' => absurd hc' hc

/-- Two texts are split in the same way, before their borders. -/
def Splits (v v' : List Char) (s s' : List Char × List Char) : Prop :=
  ∃ w, s.2 = w ++ v ∧ s' = (s.1, w ++ v')

theorem Splits.here (u : List Char) : Splits v v' ([], u ++ v) ([], u ++ v') := ⟨u, rfl, rfl⟩

theorem Splits.cons {s s' : List Char × List Char} (h : Splits v v' s s') (c : Char) :
    Splits v v' (c :: s.1, s.2) (c :: s'.1, s'.2) := by
  obtain ⟨w, hw, rfl⟩ := h
  exact ⟨w, hw, rfl⟩

theorem Splits.of_ends (s : List Char × List Char) : Splits [] [] s s :=
  ⟨s.2, (List.append_nil _).symm, by rw [List.append_nil]⟩

/-- A backslash takes what follows it into the text, so none stands before a quote of the border. -/
theorem interior_backslash (hb : Border v v') (quote : Char)
    (h : v <:+ (interior quote ('\\' :: v)).2) : v = [] ∧ v' = [] := by
  cases hb with
  | ends => exact ⟨rfl, rfl⟩
  | @quote q hq r r' =>
      rw [interior_escaped quote q r fun hc => absurd hc (hq.ne (by decide) (by decide))] at h
      exact absurd h (not_suffix_of_length_lt (Nat.lt_succ_of_le (length_interior_le quote r)))

theorem interior_border (hb : Border v v') (quote : Char) (u : List Char)
    (h : v <:+ (interior quote (u ++ v)).2) :
    Splits v v' (interior quote (u ++ v)) (interior quote (u ++ v')) := by
  fun_induction interior quote u with
  | case1 =>
      cases hb with
      | ends => exact .of_ends _
      | @quote q hq r r' =>
          have hne : q ≠ '\\' := hq.ne (by decide) (by decide)
          by_cases hstop : q = quote ∨ q = '\n' ∨ q = '\r'
          · rw [List.nil_append, List.nil_append, interior_stop r hne hstop,
              interior_stop r' hne hstop]
            exact .here []
          · rw [List.nil_append, interior_plain r hne hstop] at h
            exact absurd h (not_suffix_of_length_lt (Nat.lt_succ_of_le (length_interior_le quote r)))
  | case2 r inside rest _ ih =>
      simp only [List.cons_append, interior] at h ⊢
      exact (((ih h).cons _).cons _).cons _
  | case3 c r hline inside rest _ ih =>
      have hhead : c = '\r' → (r ++ v).head? ≠ some '\n' :=
        fun hc => hb.head?_ne (fun u hu => hline u hc hu) (by simp [IsQuote])
      simp only [List.cons_append, interior_escaped quote c _ hhead,
        interior_escaped quote c _ (hb.head?_append r ▸ hhead)] at h ⊢
      exact ((ih h).cons _).cons _
  | case4 c r _ hone hstop =>
      by_cases hc : c = '\\'
      · obtain rfl : r = [] := eq_nil_of_forall_ne_cons fun a r' hr => hone a r' hc hr
        obtain ⟨rfl, rfl⟩ := interior_backslash hb quote (hc ▸ h)
        exact .of_ends _
      · rw [List.cons_append, List.cons_append, interior_stop _ hc hstop, interior_stop _ hc hstop]
        exact .here (c :: r)
  | case5 c r _ hone hstop inside rest _ ih =>
      by_cases hc : c = '\\'
      · obtain rfl : r = [] := eq_nil_of_forall_ne_cons fun a r' hr => hone a r' hc hr
        obtain ⟨rfl, rfl⟩ := interior_backslash hb quote (hc ▸ h)
        exact .of_ends _
      · simp only [List.cons_append, interior_plain _ hc hstop] at h ⊢
        exact (ih h).cons _

theorem length_stretch_le (cs : List Char) : (stretch cs).2.length ≤ cs.length := by
  have h := congrArg List.length (stretch_append cs)
  rw [List.length_append] at h
  omega

theorem stretch_plain {c : Char} (r : List Char) (hc : c ≠ '\\') (htick : c ≠ '\x60')
    (hdollar : c = '$' → r.head? ≠ some '\x7b') :
    stretch (c :: r) = (c :: (stretch r).1, (stretch r).2) := by
  rw [stretch]
  · exact fun hc' => absurd hc' htick
  · intro r' hc' hr
    exact hdollar hc' (by rw [hr]; rfl)
  · exact fun _ _ hc' => absurd hc' hc

theorem stretch_border (hb : Border v v') (u : List Char) (h : v <:+ (stretch (u ++ v)).2) :
    Splits v v' (stretch (u ++ v)) (stretch (u ++ v')) := by
  fun_induction stretch u with
  | case1 =>
      cases hb with
      | ends => exact .of_ends _
      | @quote q hq r r' =>
          rw [List.nil_append, stretch_plain r (hq.ne (by decide) (by decide))
            (hq.ne (by decide) (by decide))
            fun hc => absurd hc (hq.ne (by decide) (by decide))] at h
          exact absurd h (not_suffix_of_length_lt (Nat.lt_succ_of_le (length_stretch_le r)))
  | case2 r =>
      simp only [List.cons_append, stretch]
      exact .here ('\x60' :: r)
  | case3 r =>
      simp only [List.cons_append, stretch]
      exact .here ('$' :: '\x7b' :: r)
  | case4 c r inside rest _ ih =>
      simp only [List.cons_append, stretch] at h ⊢
      exact ((ih h).cons _).cons _
  | case5 c r htick hdollar hone inside rest _ ih =>
      by_cases hc : c = '\\'
      · obtain rfl : r = [] := eq_nil_of_forall_ne_cons fun a r' hr => hone a r' hc hr
        subst hc
        cases hb with
        | ends => exact .of_ends _
        | @quote q hq r r' =>
            simp only [List.cons_append, List.nil_append, stretch] at h
            exact absurd h (not_suffix_of_length_lt (Nat.lt_succ_of_le (length_stretch_le r)))
      · have hhead : c = '$' → (r ++ v).head? ≠ some '\x7b' :=
          fun hc' => hb.head?_ne (fun u hu => hdollar u hc' hu) (by simp [IsQuote])
        simp only [List.cons_append, stretch_plain _ hc htick hhead,
          stretch_plain _ hc htick (hb.head?_append r ▸ hhead)] at h ⊢
        exact (ih h).cons _

theorem length_regexBody_le (escaped inClass : Bool) (cs : List Char) :
    (regexBody escaped inClass cs).2.length ≤ cs.length := by
  have h := congrArg List.length (regexBody_append escaped inClass cs)
  rw [List.length_append] at h
  omega

theorem regexBody_border (hb : Border v v') (escaped inClass : Bool) (u : List Char)
    (h : v <:+ (regexBody escaped inClass (u ++ v)).2) :
    Splits v v' (regexBody escaped inClass (u ++ v)) (regexBody escaped inClass (u ++ v')) := by
  induction u generalizing escaped inClass with
  | nil =>
      cases hb with
      | ends => exact .of_ends _
      | @quote q hq r r' =>
          have hline : isLineBreak q = false := hq.apply_eq_false (by decide) (by decide)
          have hslash : q ≠ '/' := hq.ne (by decide) (by decide)
          refine absurd h (not_suffix_of_length_lt (Nat.lt_succ_of_le ?_))
          cases escaped <;> simp [regexBody, hline, hslash, length_regexBody_le]
  | cons c u ih =>
      simp only [List.cons_append, regexBody] at h ⊢
      by_cases hline : isLineBreak c
      · simp only [if_pos hline]
        exact .here (c :: u)
      · simp only [if_neg hline] at h ⊢
        by_cases hescaped : escaped
        · simp only [if_pos hescaped] at h ⊢
          exact (ih false inClass h).cons c
        · simp only [if_neg hescaped] at h ⊢
          by_cases hslash : c = '/' ∧ !inClass
          · simp only [if_pos hslash]
            exact .here (c :: u)
          · simp only [if_neg hslash] at h ⊢
            exact (ih _ _ h).cons c

end Quoted

namespace Lexer

variable {v v' : List Char}

/-- Two gaps that end at places beside each other. -/
structure Passed.Alike (v v' : List Char) (p p' : Passed) : Prop where
  beside : Beside v v' p.cursor p'.cursor
  lineBreak : p'.lineBreak = p.lineBreak
  unterminated : p'.unterminated.isSome = p.unterminated.isSome

theorem passGap_line (opened : Nat) (lineBreak : Bool) (c : Char) (r : List Char) (pos : Nat) :
    passGap .line opened lineBreak (c :: r) pos =
      if isLineBreak c then passGap .blank opened true r (pos + c.utf8Size)
      else passGap .line opened lineBreak r (pos + c.utf8Size) := by
  rw [passGap]

theorem passGap_block (opened : Nat) (lineBreak : Bool) {c : Char} {r : List Char} (pos : Nat)
    (h : c = '*' → r.head? ≠ some '/') :
    passGap .block opened lineBreak (c :: r) pos =
      passGap .block opened (lineBreak || isLineBreak c) r (pos + c.utf8Size) := by
  rw [passGap]
  intro r' hc hr
  exact h hc (by rw [hr]; rfl)

theorem passGap_blank (opened : Nat) (lineBreak : Bool) {c : Char} {r : List Char} (pos : Nat)
    (hline : c = '/' → r.head? ≠ some '/') (hblock : c = '/' → r.head? ≠ some '*') :
    passGap .blank opened lineBreak (c :: r) pos =
      if isLineBreak c then passGap .blank opened true r (pos + c.utf8Size)
      else if isBlank c then passGap .blank opened lineBreak r (pos + c.utf8Size)
      else ⟨⟨c :: r, pos⟩, lineBreak, none⟩ := by
  rw [passGap]
  · intro r' hc hr
    exact hline hc (by rw [hr]; rfl)
  · intro r' hc hr
    exact hblock hc (by rw [hr]; rfl)

theorem passGap_blank_append (hb : Border v v') (opened : Nat) (lineBreak : Bool) {c : Char}
    {u : List Char} (pos : Nat) (hline : ∀ r, c = '/' → u = '/' :: r → False)
    (hblock : ∀ r, c = '/' → u = '*' :: r → False) :
    passGap .blank opened lineBreak (c :: u ++ v) pos =
      if isLineBreak c then passGap .blank opened true (u ++ v) (pos + c.utf8Size)
      else if isBlank c then passGap .blank opened lineBreak (u ++ v) (pos + c.utf8Size)
      else ⟨⟨c :: (u ++ v), pos⟩, lineBreak, none⟩ :=
  passGap_blank opened lineBreak pos
    (fun hc => hb.head?_ne (fun r hu => hline r hc hu) (by simp [IsQuote]))
    (fun hc => hb.head?_ne (fun r hu => hblock r hc hu) (by simp [IsQuote]))

/-- Blanks end before a quote, and a comment that holds one goes on after it. -/
theorem passGap_at_border (hb : Border v v') (gap : Gap) (opened opened' : Nat) (lineBreak : Bool)
    (pos pos' : Nat) (h : (passGap gap opened lineBreak v pos).cursor.Within v) :
    (passGap gap opened lineBreak v pos).Alike v v' (passGap gap opened' lineBreak v' pos') := by
  cases hb with
  | ends => cases gap <;> exact ⟨⟨[], rfl, rfl⟩, rfl, rfl⟩
  | @quote q hq r r' =>
      have hline : isLineBreak q = false := hq.apply_eq_false (by decide) (by decide)
      have hblank : isBlank q = false := hq.apply_eq_false (by decide) (by decide)
      have hslash (hc : q = '/') : False := hq.ne (by decide) (by decide) hc
      cases gap with
      | blank =>
          rw [passGap_blank _ _ _ (fun hc => (hslash hc).elim) fun hc => (hslash hc).elim,
            passGap_blank _ _ _ (fun hc => (hslash hc).elim) fun hc => (hslash hc).elim]
          simp only [hline, hblank]
          exact ⟨⟨[], rfl, rfl⟩, rfl, rfl⟩
      | line =>
          rw [passGap_line, hline] at h
          exact absurd h (not_suffix_of_length_lt (Nat.lt_succ_of_le (passGap_reaches ..).length_le))
      | block =>
          rw [passGap_block _ _ _ fun hc => absurd hc (hq.ne (by decide) (by decide))] at h
          exact absurd h (not_suffix_of_length_lt (Nat.lt_succ_of_le (passGap_reaches ..).length_le))

theorem passGap_border (hb : Border v v') (gap : Gap) (opened opened' : Nat) (lineBreak : Bool)
    (u : List Char) (pos pos' : Nat)
    (h : (passGap gap opened lineBreak (u ++ v) pos).cursor.Within v) :
    (passGap gap opened lineBreak (u ++ v) pos).Alike v v'
      (passGap gap opened' lineBreak (u ++ v') pos') := by
  fun_induction passGap gap opened lineBreak u pos generalizing opened' pos' with
  | case1 | case2 => exact passGap_at_border hb _ _ _ _ _ _ h
  | case3 _ _ c r _ hline ih =>
      simp only [List.cons_append, passGap_line, if_pos hline] at h ⊢
      exact ih _ _ h
  | case4 _ _ c r _ hline ih =>
      simp only [List.cons_append, passGap_line, if_neg hline] at h ⊢
      exact ih _ _ h
  | case5 _ _ _ r ih | case7 _ _ _ r ih | case8 _ _ _ r ih =>
      simp only [List.cons_append, passGap] at h ⊢
      exact ih _ _ h
  | case6 _ _ _ c r hend ih =>
      have hhead : c = '*' → (r ++ v).head? ≠ some '/' :=
        fun hc => hb.head?_ne (fun u hu => hend u hc hu) (by simp [IsQuote])
      rw [List.cons_append, passGap_block _ _ _ hhead] at h ⊢
      rw [List.cons_append, passGap_block _ _ _ (hb.head?_append r ▸ hhead)]
      exact ih _ _ h
  | case9 _ _ _ c r hline hblock hbreak ih =>
      rw [passGap_blank_append hb _ _ _ hline hblock, if_pos hbreak] at h ⊢
      rw [passGap_blank_append hb.symm _ _ _ hline hblock, if_pos hbreak]
      exact ih _ _ h
  | case10 _ _ _ c r hline hblock hbreak hblank ih =>
      rw [passGap_blank_append hb _ _ _ hline hblock, if_neg hbreak, if_pos hblank] at h ⊢
      rw [passGap_blank_append hb.symm _ _ _ hline hblock, if_neg hbreak, if_pos hblank]
      exact ih _ _ h
  | case11 _ _ _ c r hline hblock hbreak hblank =>
      rw [passGap_blank_append hb _ _ _ hline hblock, if_neg hbreak, if_neg hblank,
        passGap_blank_append hb.symm _ _ _ hline hblock, if_neg hbreak, if_neg hblank]
      exact ⟨⟨c :: r, rfl, rfl⟩, rfl, rfl⟩

end Lexer

end WebModules.Script
