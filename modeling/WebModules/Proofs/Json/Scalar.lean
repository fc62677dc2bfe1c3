import Mathlib.Algebra.Group.Int.Defs
import Mathlib.Algebra.Group.Nat.Defs
import WebModules.Json.Parse
import WebModules.Json.Print

/-!
Strings and integers are read as they are printed.
-/

namespace WebModules.Json

open Input

variable {α : Type}

/-- What follows an item of a printed document. -/
def Ends (rest : List Char) : Prop := ∃ c r, rest = c :: r ∧ (c = ',' ∨ c = '\n')

/-- A text is read as a value wherever an item can stand. -/
def Reads (read : Input → Except Failure (α × Input)) (text : List Char) (a : α) : Prop :=
  ∀ rest pos, Ends rest → ∃ last, read ⟨text ++ rest, pos⟩ = .ok (a, ⟨rest, last⟩)

theorem hexValue?_hexDigitChar {n : Nat} (h : n < 16) : hexValue? (hexDigitChar n) = some n := by
  have hall : ∀ n < 16, hexValue? (hexDigitChar n) = some n := by decide
  exact hall n h

theorem utf8Size_hexDigitChar {n : Nat} (h : n < 16) : (hexDigitChar n).utf8Size = 1 := by
  have hall : ∀ n < 16, (hexDigitChar n).utf8Size = 1 := by decide
  exact hall n h

theorem readHex_control {c : Char} (h : c.toNat < 32) (rest : List Char) (pos : Nat) :
    readHex ⟨'0' :: '0' :: hexDigitChar (c.toNat / 16) :: hexDigitChar (c.toNat % 16) :: rest, pos⟩ =
      .ok (c.toNat, ⟨rest, pos + 4⟩) := by
  have hhigh : c.toNat / 16 < 16 := by omega
  have hlow : c.toNat % 16 < 16 := by omega
  have hzero : hexValue? '0' = some 0 := by decide
  have hsize : ('0' : Char).utf8Size = 1 := by decide
  simp only [readHex, List.take_succ_cons, List.take_zero, byteLength, List.foldr_cons, List.foldr_nil,
    hsize, utf8Size_hexDigitChar hhigh, utf8Size_hexDigitChar hlow, List.mapM_cons, List.mapM_nil, hzero,
    hexValue?_hexDigitChar hhigh, hexValue?_hexDigitChar hlow, Option.bind_eq_bind, Option.bind_some,
    Option.pure_def, skip, List.drop_succ_cons, List.drop_zero]
  rw [if_neg (by decide), show ((0 * 16 + 0) * 16 + c.toNat / 16) * 16 + c.toNat % 16 = c.toNat by omega]

theorem readEscape_control {c : Char} (h : c.toNat < 32) (rest : List Char) (pos : Nat) :
    readEscape false
        ⟨'u' :: '0' :: '0' :: hexDigitChar (c.toNat / 16) :: hexDigitChar (c.toNat % 16) :: rest, pos⟩ =
      .ok ([c], ⟨rest, pos + 5⟩) := by
  have hsize : ('u' : Char).utf8Size = 1 := by decide
  have hsmall : c.toNat < 0xd800 ∨ 0xdfff < c.toNat := .inl (by omega)
  simp only [readEscape, readUnicode, Input.next, hsize, readHex_control h, bind, Except.bind, hsmall,
    if_true, Char.ofNat_toNat]
  rfl

theorem readString_escape {cs more : List Char} {c : Char} {pos next : Nat}
    (h : readEscape false ⟨cs, pos + 1⟩ = .ok ([c], ⟨more, next⟩)) (fuel : Nat) :
    readString false (fuel + 1) ⟨'\\' :: cs, pos⟩ =
      (readString false fuel ⟨more, next⟩).map fun r => (c :: r.1, r.2) := by
  have hsize : ('\\' : Char).utf8Size = 1 := by decide
  rw [readString]
  simp only [Input.next, hsize, h, bind, Except.bind, pure, Except.pure, List.singleton_append]
  cases readString false fuel ⟨more, next⟩ <;> rfl

theorem readString_plain {cs : List Char} {c : Char} {i : Input} (hi : i.rest = c :: cs)
    (hquote : c ≠ '"') (hslash : c ≠ '\\') (hc : ¬ c.toNat < 32) (fuel : Nat) :
    readString false (fuel + 1) i = (readString false fuel i.next).map fun r => (c :: r.1, r.2) := by
  rw [readString, hi]
  split
  · contradiction
  · rename_i heq
    exact absurd (List.cons.inj heq).1 hquote
  · rename_i heq
    exact absurd (List.cons.inj heq).1 hslash
  · rename_i d ds hd hq heq
    obtain ⟨rfl, -⟩ := List.cons.inj heq
    simp only [hc, if_false, bind, Except.bind, pure, Except.pure]
    cases readString false fuel i.next <;> rfl

theorem readString_escapedChar (c : Char) (more : List Char) (fuel pos : Nat) :
    ∃ next, readString false (fuel + 1) ⟨escapedChar c ++ more, pos⟩ =
      (readString false fuel ⟨more, next⟩).map fun r => (c :: r.1, r.2) := by
  unfold escapedChar
  by_cases hquote : c = '"'
  · subst hquote
    exact ⟨_, readString_escape rfl fuel⟩
  by_cases hslash : c = '\\'
  · subst hslash
    exact ⟨_, readString_escape rfl fuel⟩
  by_cases hb : c = '\x08'
  · subst hb
    exact ⟨_, readString_escape rfl fuel⟩
  by_cases hf : c = '\x0c'
  · subst hf
    exact ⟨_, readString_escape rfl fuel⟩
  by_cases hn : c = '\n'
  · subst hn
    exact ⟨_, readString_escape rfl fuel⟩
  by_cases hr : c = '\r'
  · subst hr
    exact ⟨_, readString_escape rfl fuel⟩
  by_cases ht : c = '\t'
  · subst ht
    exact ⟨_, readString_escape rfl fuel⟩
  simp only [hquote, hslash, hb, hf, hn, hr, ht, if_false]
  by_cases hc : c.toNat < 32
  · simp only [hc, if_true]
    exact ⟨_, readString_escape (readEscape_control hc more (pos + 1)) fuel⟩
  · simp only [hc, if_false]
    exact ⟨_, readString_plain rfl hquote hslash hc fuel⟩

theorem readString_quoted (cs rest : List Char) (fuel : Nat) (hf : cs.length < fuel) (pos : Nat) :
    ∃ last, readString false fuel ⟨cs.flatMap escapedChar ++ '"' :: rest, pos⟩ =
      .ok (cs, ⟨rest, last⟩) := by
  induction cs generalizing fuel pos with
  | nil =>
      obtain ⟨fuel, rfl⟩ := Nat.exists_eq_add_of_lt hf
      exact ⟨_, rfl⟩
  | cons c cs ih =>
      obtain ⟨fuel, rfl⟩ : ∃ n, fuel = n + 1 := ⟨fuel - 1, by omega⟩
      obtain ⟨next, hnext⟩ := readString_escapedChar c (cs.flatMap escapedChar ++ '"' :: rest) fuel pos
      obtain ⟨last, hlast⟩ := ih fuel (by simpa using hf) next
      exact ⟨last, by rw [List.flatMap_cons, List.append_assoc, hnext, hlast]; rfl⟩

theorem length_le_flatMap_escapedChar (cs : List Char) :
    cs.length ≤ (cs.flatMap escapedChar).length := by
  have hpos (c : Char) : 1 ≤ (escapedChar c).length := by
    unfold escapedChar
    repeat' split
    all_goals simp
  induction cs with
  | nil => exact Nat.le_refl _
  | cons c cs ih =>
      have := hpos c
      rw [List.flatMap_cons, List.length_append, List.length_cons]
      omega

theorem readText_quoted (s : String) (rest : List Char) (pos : Nat) :
    ∃ last, readText false ⟨(quoted s).toList ++ rest, pos⟩ = .ok (s, ⟨rest, last⟩) := by
  have hlength := length_le_flatMap_escapedChar s.toList
  have htext : (quoted s).toList ++ rest = '"' :: (s.toList.flatMap escapedChar ++ '"' :: rest) := by
    simp [quoted]
  rw [htext, readText]
  obtain ⟨last, hlast⟩ := readString_quoted s.toList rest
    (('"' :: (s.toList.flatMap escapedChar ++ '"' :: rest)).length + 1)
    (by rw [List.length_cons, List.length_append, List.length_cons]; omega) (pos + ('"' : Char).utf8Size)
  refine ⟨last, ?_⟩
  simp only [Input.next, hlast, bind, Except.bind, pure, Except.pure, String.ofList_toList]

theorem ends_not_digit {rest : List Char} (h : Ends rest) : (rest.head?.map Char.isDigit).getD false = false := by
  obtain ⟨c, r, rfl, rfl | rfl⟩ := h <;> rfl

theorem addDigits_ends {rest : List Char} (h : Ends rest) (n count pos : Nat) :
    addDigits n count ⟨rest, pos⟩ = (n, count, ⟨rest, pos⟩) := by
  obtain ⟨c, r, rfl, hc⟩ := h
  have hdigit : c.isDigit = false := by rcases hc with rfl | rfl <;> rfl
  rw [addDigits]
  simp [hdigit]

theorem le_ofDigitChars (ds : List Char) (n : Nat) : n ≤ Nat.ofDigitChars 10 ds n := by
  induction ds generalizing n with
  | nil => simp
  | cons d ds ih =>
      rw [Nat.ofDigitChars_cons]
      have := ih (10 * n + (d.toNat - '0'.toNat))
      omega

theorem addDigits_digits {ds rest : List Char} (hd : ∀ d ∈ ds, d.isDigit) (hr : Ends rest)
    (n count pos : Nat) (hn : Nat.ofDigitChars 10 ds n ≤ maxNatural) :
    addDigits n count ⟨ds ++ rest, pos⟩ =
      (Nat.ofDigitChars 10 ds n, count + ds.length, ⟨rest, pos + ds.length⟩) := by
  induction ds generalizing n count pos with
  | nil => simpa using addDigits_ends hr n count pos
  | cons d ds ih =>
      rw [Nat.ofDigitChars_cons, Nat.mul_comm] at hn
      have hle := le_ofDigitChars ds (n * 10 + digitValue d)
      have hfits : d.isDigit ∧ n * 10 + digitValue d ≤ maxNatural :=
        ⟨hd d List.mem_cons_self, Nat.le_trans hle hn⟩
      have htail := ih (fun e he => hd e (List.mem_cons_of_mem _ he)) (n * 10 + digitValue d)
        (count + 1) (pos + 1) hn
      rw [List.cons_append, addDigits, if_pos hfits, htail, Nat.ofDigitChars_cons, Nat.mul_comm 10 n]
      simp [digitValue, Nat.add_comm, Nat.add_left_comm]

theorem skipDigits_ends {rest : List Char} (h : Ends rest) (pos : Nat) :
    skipDigits ⟨rest, pos⟩ = (0, ⟨rest, pos⟩) := by
  obtain ⟨c, r, rfl, rfl | rfl⟩ := h <;> rfl

theorem endInteger_ends {rest : List Char} (h : Ends rest) (n pos : Nat) :
    endInteger false false n ⟨rest, pos⟩ = .ok (.integer n, ⟨rest, pos⟩) := by
  obtain ⟨c, r, rfl, rfl | rfl⟩ := h <;> rfl

theorem endInteger_negative {rest : List Char} (h : Ends rest) {n : Nat} (hn : 0 < n) (hm : n ≤ 2 ^ 63) (pos : Nat) :
    endInteger false true n ⟨rest, pos⟩ = .ok (.integer (-(n : Int)), ⟨rest, pos⟩) := by
  have hsmall : ¬ (n = 0 ∨ Nat.pow 2 63 < n) := by
    rw [Nat.pow_eq]
    omega
  obtain ⟨c, r, rfl, rfl | rfl⟩ := h <;> simp [endInteger, hsmall]

theorem digitChar_ne_zero {d : Nat} (h : 0 < d) (hd : d < 10) : d.digitChar ≠ '0' := by
  have hall : ∀ d < 10, 0 < d → d.digitChar ≠ '0' := by decide
  exact hall d hd h

/-- A number other than zero starts with no zero. -/
theorem head_toDigits {n : Nat} (hn : 0 < n) :
    ∃ d ds, Nat.toDigits 10 n = d :: ds ∧ d ≠ '0' := by
  induction n using Nat.strongRecOn with
  | _ n ih =>
      by_cases hsmall : n < 10
      · exact ⟨_, [], Nat.toDigits_of_lt_base hsmall, digitChar_ne_zero hn hsmall⟩
      · obtain ⟨d, ds, hds, hd⟩ := ih (n / 10) (by omega) (by omega)
        exact ⟨d, _, by rw [Nat.toDigits_of_base_le (by decide) (by omega), hds, List.cons_append], hd⟩

theorem readNumber_digits {n : Nat} (hn : n ≤ maxNatural) {rest : List Char} (hr : Ends rest)
    (negative : Bool) (pos : Nat) : ∃ last,
    readNumber false negative ⟨Nat.toDigits 10 n ++ rest, pos⟩ = endInteger false negative n ⟨rest, last⟩ := by
  rcases Nat.eq_zero_or_pos n with rfl | hpos
  · refine ⟨pos + 1, ?_⟩
    simp [Nat.toDigits_zero, readNumber, ends_not_digit hr, Input.next]
    rfl
  · obtain ⟨d, ds, hds, hzero⟩ := head_toDigits hpos
    have hdigits : ∀ c ∈ Nat.toDigits 10 n, c.isDigit :=
      fun c hc => Nat.isDigit_of_mem_toDigits (by decide) (by decide) hc
    have hread := addDigits_digits hdigits hr 0 0 pos (by simpa using hn)
    rw [Nat.ofDigitChars_ten_toDigits] at hread
    refine ⟨pos + (Nat.toDigits 10 n).length, ?_⟩
    rw [hds] at hread ⊢
    have hd : d.isDigit := hdigits d (by simp [hds])
    rw [List.cons_append, readNumber]
    simp only [List.cons_append] at hread
    simp [hd, hread, skipDigits_ends hr]

end WebModules.Json
