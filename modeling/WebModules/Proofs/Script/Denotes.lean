import Mathlib.Data.List.TakeWhile
import Mathlib.Tactic.IntervalCases
import WebModules.Script.Quoted

/-!
What the text between two quotes stands for by the grammar of the language: code points, among them the
surrogates that are written as escapes.  Unless it has surrogates, a text is decoded as what it stands for.
-/

namespace WebModules.Script.Quoted

def controls : List (Char × Nat) := [('b', 8), ('t', 9), ('n', 10), ('v', 11), ('f', 12), ('r', 13)]

/-- The characters that do not stand for themselves after a backslash. -/
def special : List Char :=
  ['\n', '\r', '\u2028', '\u2029', 'b', 't', 'n', 'v', 'f', 'r', 'x', 'u', '0', '1', '2', '3', '4', '5', '6', '7']

/-- What may stand after a backslash, with the code points that it stands for and the text after it.  There are no
octal numbers among it but zero. -/
inductive Escape : List Char → List Nat → List Char → Prop
  | lineBreak {c : Char} {rest : List Char} (h : c = '\n' ∨ c = '\u2028' ∨ c = '\u2029') : Escape (c :: rest) [] rest
  | carriageReturn {rest : List Char} (h : rest.head? ≠ some '\n') : Escape ('\r' :: rest) [] rest
  | bothBreaks {rest : List Char} : Escape ('\r' :: '\n' :: rest) [] rest
  | control {c : Char} {n : Nat} {rest : List Char} (h : (c, n) ∈ controls) : Escape (c :: rest) [n] rest
  | zero {rest : List Char} (h : ∀ d ∈ rest.head?, isOctalDigit d = false) : Escape ('0' :: rest) [0] rest
  | byte {digits rest : List Char} (hlength : digits.length = 2) (hdigits : ∀ d ∈ digits, isHexDigit d) :
      Escape ('x' :: (digits ++ rest)) [numeral 16 digits] rest
  | unit {digits rest : List Char} (hlength : digits.length = 4) (hdigits : ∀ d ∈ digits, isHexDigit d) :
      Escape ('u' :: (digits ++ rest)) [numeral 16 digits] rest
  | codePoint {digits rest : List Char} (hne : digits ≠ []) (hdigits : ∀ d ∈ digits, isHexDigit d)
      (hle : numeral 16 digits ≤ 0x10ffff) : Escape ('u' :: '{' :: (digits ++ '}' :: rest)) [numeral 16 digits] rest
  | itself {c : Char} {rest : List Char} (h : c ∉ special) : Escape (c :: rest) [c.toNat] rest

/-- The code points that the text between two quotes stands for. -/
inductive Denotes : List Char → List Nat → Prop
  | nil : Denotes [] []
  | char {c : Char} {cs : List Char} {ns : List Nat} (h : c ≠ '\\') (hcs : Denotes cs ns) :
      Denotes (c :: cs) (c.toNat :: ns)
  | escape {cs rest : List Char} {ns ms : List Nat} (h : Escape cs ns rest) (hrest : Denotes rest ms) :
      Denotes ('\\' :: cs) (ns ++ ms)

def parts (cs : List Char) : List Piece := (pieces cs).map Prod.fst

section Parts

variable {c : Char} {cs rest : List Char} {ns : List Nat}

/-- The pieces do not depend on what stands before the text. -/
theorem map_piecesFrom (pos skip : Nat) (cs : List Char) : (piecesFrom pos skip cs).map Prod.fst = parts (cs.drop skip) := by
  suffices h : ∀ pos', (piecesFrom pos skip cs).map Prod.fst = (piecesFrom pos' 0 (cs.drop skip)).map Prod.fst from h 0
  intro pos'
  induction cs generalizing pos pos' skip with
  | nil => simp [piecesFrom]
  | cons c r ih =>
      cases skip with
      | succ skip => exact ih _ skip pos'
      | zero =>
          simp only [List.drop_zero, piecesFrom]
          split
          · rw [List.map_cons, List.map_cons, ih _ _ 0, ih _ _ 0]
          · rw [List.map_cons, List.map_cons, ih _ 0 0, ih _ 0 0]

theorem parts_char (h : c ≠ '\\') (cs : List Char) : parts (c :: cs) = .text [c] :: parts cs := by
  rw [parts, pieces, piecesFrom, if_neg h, List.map_cons, map_piecesFrom]
  rfl

theorem parts_backslash (cs : List Char) :
    parts ('\\' :: cs) = (escape cs).1 :: parts (cs.drop (escape cs).2) := by
  rw [parts, pieces, piecesFrom, if_pos rfl, List.map_cons, map_piecesFrom]

theorem decode_eq_flatMap (cs : List Char) : decode cs = (parts cs).flatMap Piece.chars := by
  rw [parts, List.flatMap_map, decode]

end Parts

section Digits

variable {digits rest : List Char}

theorem takeWhile_digits (hdigits : ∀ d ∈ digits, isHexDigit d) (hrest : ∀ c ∈ rest.head?, isHexDigit c = false) :
    (digits ++ rest).takeWhile isHexDigit = digits := by
  rw [List.takeWhile_append_of_pos hdigits]
  cases rest with
  | nil => simp
  | cons c rest => simp [hrest c rfl]

theorem takeWhile_take_digits {n : Nat} (hlength : digits.length = n) (hdigits : ∀ d ∈ digits, isHexDigit d) :
    ((digits ++ rest).take n).takeWhile isHexDigit = digits := by
  rw [← hlength, List.take_left]
  simpa using @takeWhile_digits digits [] hdigits (by simp)

theorem mem_digits {d : Char} (h : d ∈ rest.takeWhile isHexDigit) : isHexDigit d := List.mem_takeWhile_imp h

theorem digits_append_drop {n : Nat} (h : ((rest.take n).takeWhile isHexDigit).length = n) :
    (rest.take n).takeWhile isHexDigit ++ rest.drop n = rest := by
  have hall : (rest.take n).takeWhile isHexDigit = rest.take n := by
    refine (List.takeWhile_prefix _).eq_of_length_le ?_
    rw [h]
    exact List.length_take_le n rest
  rw [hall, List.take_append_drop]

theorem digits_append_brace (htaken : rest.takeWhile isHexDigit = digits)
    (h : (rest.drop digits.length).head? = some '}') : digits ++ '}' :: rest.drop (digits.length + 1) = rest := by
  obtain ⟨after, rfl⟩ : digits <+: rest := htaken ▸ List.takeWhile_prefix isHexDigit
  rw [List.drop_left] at h
  obtain ⟨after, rfl⟩ := List.head?_eq_some_iff.1 h
  rw [List.drop_length_add_append, List.drop_one, List.tail_cons]

end Digits

theorem mem_special_of_isOctalDigit {c : Char} (h : isOctalDigit c) : c ∈ special := by
  have hbounds : 48 ≤ c.toNat ∧ c.toNat ≤ 55 := by simpa [isOctalDigit, Char.le_def, UInt32.le_iff_toNat_le] using h
  obtain ⟨hlow, hhigh⟩ := hbounds
  rw [← Char.ofNat_toNat c]
  interval_cases c.toNat <;> decide

theorem toNat_ofNat {n : Nat} (h : n.isValidChar) : (Char.ofNat n).toNat = n := by
  rw [Char.ofNat, dif_pos h]
  rfl

/-- A code point is read as its character, or as something else that is kept of it if it is a surrogate. -/
theorem match_scalar? (n taken : Nat) (kept : List Char) :
    ∃ found, (match scalar? n with
      | some c => (Piece.text [c], taken)
      | none => (Piece.text kept, taken)) = (.text found, taken) ∧ (n.isValidChar → found.map Char.toNat = [n]) := by
  by_cases h : n.isValidChar
  · have hscalar : scalar? n = some (Char.ofNatAux n h) := dif_pos h
    rw [hscalar]
    exact ⟨_, rfl, fun _ => rfl⟩
  · have hscalar : scalar? n = none := dif_neg h
    rw [hscalar]
    exact ⟨kept, rfl, fun hn => absurd hn h⟩

section Escape

variable {cs rest : List Char} {ns : List Nat} {c : Char}

/-- What stands after a backslash is read as the characters that it stands for, unless a surrogate is among them. -/
theorem Escape.escape_eq (h : Escape cs ns rest) :
    ∃ found taken, Quoted.escape cs = (.text found, taken) ∧ cs.drop taken = rest ∧
      ((∀ n ∈ ns, n.isValidChar) → found.map Char.toNat = ns) := by
  cases h with
  | lineBreak h => obtain rfl | rfl | rfl := h <;> exact ⟨[], 1, rfl, rfl, fun _ => rfl⟩
  | carriageReturn h =>
      cases rest with
      | nil => exact ⟨[], 1, rfl, rfl, fun _ => rfl⟩
      | cons d rest =>
          refine ⟨[], 1, ?_, rfl, fun _ => rfl⟩
          rw [Quoted.escape]
          · simp
          · rintro tail - heq
            cases heq
            exact h rfl
          all_goals simp
  | bothBreaks => exact ⟨[], 2, rfl, rfl, fun _ => rfl⟩
  | control h =>
      simp only [controls, List.mem_cons, Prod.mk.injEq, List.not_mem_nil, or_false] at h
      obtain ⟨rfl, rfl⟩ | ⟨rfl, rfl⟩ | ⟨rfl, rfl⟩ | ⟨rfl, rfl⟩ | ⟨rfl, rfl⟩ | ⟨rfl, rfl⟩ := h
      all_goals exact ⟨_, 1, rfl, rfl, fun _ => rfl⟩
  | zero h =>
      refine ⟨['\x00'], 1, ?_, rfl, fun _ => rfl⟩
      cases rest with
      | nil => rfl
      | cons d rest => simp [Quoted.escape, h d rfl]
  | @byte digits rest hlength hdigits =>
      refine ⟨[Char.ofNat (numeral 16 digits)], 3, ?_, by simp [hlength], fun h => ?_⟩
      · simp only [Quoted.escape, takeWhile_take_digits hlength hdigits, hlength, if_true]
      · simp [toNat_ofNat (h _ (List.mem_singleton_self _))]
  | @unit digits rest hlength hdigits =>
      have hbrace : ∀ r, digits ++ rest = '{' :: r → False := by
        intro r heq
        obtain ⟨d, digits, rfl⟩ := List.exists_cons_of_length_eq_add_one hlength
        cases heq
        exact absurd (hdigits '{' List.mem_cons_self) (by decide)
      obtain ⟨found, hfound, hvalid⟩ := match_scalar? (numeral 16 digits) 5 ('\\' :: 'u' :: digits)
      refine ⟨found, 5, ?_, by simp [hlength], fun h => hvalid (h _ (List.mem_singleton_self _))⟩
      rw [Quoted.escape, takeWhile_take_digits hlength hdigits, if_pos hlength]
      · exact hfound
      · exact hbrace
  | @codePoint digits rest hne hdigits hle =>
      have htaken : (digits ++ '}' :: rest).takeWhile isHexDigit = digits :=
        takeWhile_digits hdigits fun c hc => Option.some.inj hc ▸ rfl
      have hsmall : ¬ (digits.isEmpty ∨ Nat.pow 2 32 ≤ numeral 16 digits) := by
        rw [List.isEmpty_iff, not_or, Nat.not_le]
        exact ⟨hne, Nat.lt_of_le_of_lt hle (by decide)⟩
      obtain ⟨found, hfound, hvalid⟩ :=
        match_scalar? (numeral 16 digits) (3 + digits.length) ('\\' :: 'u' :: '{' :: digits ++ ['}'])
      refine ⟨found, 3 + digits.length, ?_, ?_, fun h => hvalid (h _ (List.mem_singleton_self _))⟩
      · rw [Quoted.escape, htaken, if_neg hsmall, if_neg (by omega), List.drop_left, if_neg (by simp)]
        exact hfound
      · rw [Nat.add_comm 3, List.drop_succ_cons, List.drop_succ_cons, List.drop_length_add_append, List.drop_one,
          List.tail_cons]
  | @itself c rest h =>
      refine ⟨[c], 1, ?_, rfl, fun _ => rfl⟩
      have hoctal : isOctalDigit c = false := Bool.eq_false_iff.2 fun hc => h (mem_special_of_isOctalDigit hc)
      simp only [special, List.mem_cons, List.not_mem_nil, or_false, not_or] at h
      rw [Quoted.escape] <;> simp [h, hoctal]

theorem Escape.of_byte (h : ((rest.take 2).takeWhile isHexDigit).length = 2) :
    Escape ('x' :: rest) [numeral 16 ((rest.take 2).takeWhile isHexDigit)] (rest.drop 2) := by
  have hescape : Escape ('x' :: (_ ++ rest.drop 2)) _ (rest.drop 2) := .byte h fun d => mem_digits
  rwa [digits_append_drop h] at hescape

theorem Escape.of_unit (h : ((rest.take 4).takeWhile isHexDigit).length = 4) :
    Escape ('u' :: rest) [numeral 16 ((rest.take 4).takeWhile isHexDigit)] (rest.drop 4) := by
  have hescape : Escape ('u' :: (_ ++ rest.drop 4)) _ (rest.drop 4) := .unit h fun d => mem_digits
  rwa [digits_append_drop h] at hescape

theorem Escape.of_codePoint {digits : List Char} (htaken : rest.takeWhile isHexDigit = digits) (hne : digits ≠ [])
    (hle : numeral 16 digits ≤ 0x10ffff) (hbrace : (rest.drop digits.length).head? = some '}') :
    Escape ('u' :: '{' :: rest) [numeral 16 digits] (rest.drop (digits.length + 1)) := by
  have hescape : Escape ('u' :: '{' :: (digits ++ '}' :: rest.drop (digits.length + 1))) _
      (rest.drop (digits.length + 1)) :=
    .codePoint hne (fun d hd => mem_digits (htaken ▸ hd)) hle
  rwa [digits_append_brace htaken hbrace] at hescape

/-- Of the octal digits only a zero is read as a character, and only where no other follows it. -/
theorem Escape.of_octal {found : List Char} {taken : Nat} (hc : c ∈ ['0', '1', '2', '3', '4', '5', '6', '7'])
    (h : Quoted.escape (c :: rest) = (.text found, taken)) : Escape (c :: rest) [0] rest := by
  simp only [List.mem_cons, List.not_mem_nil, or_false] at hc
  obtain rfl | hc := hc
  · refine .zero fun d hd => Bool.eq_false_iff.2 fun hoctal => ?_
    obtain ⟨after, rfl⟩ := List.head?_eq_some_iff.1 hd
    simp [Quoted.escape, hoctal, show isOctalDigit '0' = true from rfl] at h
  · obtain rfl | rfl | rfl | rfl | rfl | rfl | rfl := hc
    all_goals cases h

/-- What is read as characters after a backslash may stand there. -/
theorem exists_escape {found : List Char} {taken : Nat} (h : Quoted.escape cs = (.text found, taken)) :
    ∃ ns, Escape cs ns (cs.drop taken) := by
  -- how much is taken follows from what the escape is
  suffices hcs : ∃ ns rest, Escape cs ns rest by
    obtain ⟨ns, rest, hescape⟩ := hcs
    obtain ⟨found', taken', heq, rfl, -⟩ := hescape.escape_eq
    obtain ⟨-, rfl⟩ := Prod.mk.inj (h.symm.trans heq)
    exact ⟨ns, hescape⟩
  have hread := h
  unfold Quoted.escape at h
  split at h
  · cases h
  · exact ⟨_, _, .bothBreaks⟩
  · dsimp only at h
    split at h
    · rename_i hlength
      exact ⟨_, _, .of_byte hlength⟩
    · cases h
  · rename_i r
    dsimp only at h
    split at h
    · cases h
    rename_i hsome
    split at h
    · cases h
    rename_i hle
    split at h
    · cases h
    rename_i hbrace
    rw [not_or, List.isEmpty_iff] at hsome
    exact ⟨_, _, .of_codePoint rfl hsome.1 (Nat.le_of_not_lt hle) (not_not.1 hbrace)⟩
  · dsimp only at h
    split at h
    · rename_i hlength
      exact ⟨_, _, .of_unit hlength⟩
    · cases h
  · rename_i c r hreturn hx _ hu
    by_cases hspecial : c ∈ special
    · replace hspecial : c = '\n' ∨ c = '\r' ∨ c = '\u2028' ∨ c = '\u2029' ∨ c ∈ controls.map Prod.fst ∨
          c = 'x' ∨ c = 'u' ∨ c ∈ ['0', '1', '2', '3', '4', '5', '6', '7'] := by
        simpa [special, controls, or_assoc] using hspecial
      obtain rfl | rfl | rfl | rfl | hcontrol | rfl | rfl | hoctal := hspecial
      · exact ⟨_, _, .lineBreak (.inl rfl)⟩
      · refine ⟨_, _, .carriageReturn fun hnext => ?_⟩
        obtain ⟨after, rfl⟩ := List.head?_eq_some_iff.1 hnext
        exact hreturn after rfl rfl
      · exact ⟨_, _, .lineBreak (.inr (.inl rfl))⟩
      · exact ⟨_, _, .lineBreak (.inr (.inr rfl))⟩
      · obtain ⟨⟨_, n⟩, hn, rfl⟩ := List.mem_map.1 hcontrol
        exact ⟨_, _, .control hn⟩
      · exact absurd rfl hx
      · exact absurd rfl hu
      · exact ⟨_, _, .of_octal hoctal hread⟩
    · exact ⟨_, _, .itself hspecial⟩

end Escape

section Denotes

variable {cs : List Char} {ns : List Nat}

/-- A quoted text without surrogates is decoded as what it stands for. -/
theorem Denotes.decode_eq (h : Denotes cs ns) (hns : ∀ n ∈ ns, n.isValidChar) : (decode cs).map Char.toNat = ns := by
  induction h with
  | nil => rfl
  | char hc _ ih =>
      rw [decode_eq_flatMap, parts_char hc, List.flatMap_cons, ← decode_eq_flatMap, List.map_append,
        ih fun n hn => hns n (List.mem_cons_of_mem _ hn)]
      rfl
  | escape h _ ih =>
      obtain ⟨found, taken, hescape, rfl, hfound⟩ := h.escape_eq
      rw [decode_eq_flatMap, parts_backslash, hescape, List.flatMap_cons, ← decode_eq_flatMap, List.map_append,
        ih fun n hn => hns n (List.mem_append_right _ hn)]
      exact congrArg (· ++ _) (hfound fun n hn => hns n (List.mem_append_left _ hn))

/-- A quoted text stands for something unless it has an escape that stands for nothing or an octal one. -/
theorem exists_denotes (h : ∀ piece ∈ parts cs, ∃ found, piece = .text found) : ∃ ns, Denotes cs ns := by
  -- an escape may take many characters, so what is left after it is not the tail of the list
  induction hn : cs.length using Nat.strong_induction_on generalizing cs with
  | _ n ih =>
      cases cs with
      | nil => exact ⟨[], .nil⟩
      | cons c cs =>
          by_cases hc : c = '\\'
          · subst hc
            rw [parts_backslash] at h
            obtain ⟨found, hfound⟩ := h _ List.mem_cons_self
            have hread : Quoted.escape cs = (.text found, (Quoted.escape cs).2) := Prod.ext hfound rfl
            obtain ⟨ns, hescape⟩ := exists_escape hread
            obtain ⟨ms, hrest⟩ := ih (cs.drop (Quoted.escape cs).2).length
              (by rw [← hn, List.length_drop, List.length_cons]; omega)
              (fun piece hpiece => h piece (List.mem_cons_of_mem _ hpiece)) rfl
            exact ⟨ns ++ ms, .escape hescape hrest⟩
          · rw [parts_char hc] at h
            obtain ⟨ns, hrest⟩ := ih cs.length (by rw [← hn, List.length_cons]; omega)
              (fun piece hpiece => h piece (List.mem_cons_of_mem _ hpiece)) rfl
            exact ⟨c.toNat :: ns, .char hc hrest⟩

theorem exists_denotes_of_sound (hsound : firstBad? cs = none) (hoctal : octals cs = []) : ∃ ns, Denotes cs ns := by
  refine exists_denotes fun piece hpiece => ?_
  obtain ⟨entry, hentry, rfl⟩ := List.mem_map.1 hpiece
  have hnoBad (entry) (h : entry ∈ pieces cs) := List.findSome?_eq_none_iff.1 hsound entry h
  rw [octals, List.takeWhile_eq_self_iff.2] at hoctal
  · have hnotOctal := List.filterMap_eq_nil_iff.1 hoctal entry hentry
    have hnotBad := hnoBad entry hentry
    obtain ⟨_ | c | complaint, pos⟩ := entry
    · exact ⟨_, rfl⟩
    · cases hnotOctal
    · cases hnotBad
  · intro entry hentry
    have hnotBad := hnoBad entry hentry
    obtain ⟨_ | c | complaint, pos⟩ := entry
    · rfl
    · rfl
    · cases hnotBad

end Denotes

end WebModules.Script.Quoted
