import Mathlib.Data.List.TakeWhile
import WebModules.Proofs.Basic
import WebModules.Proofs.Json.Document
import WebModules.Proofs.Json.Regular

/-!
What is left of any document that is printed and read again.  A fraction may come back as another
number, and the text of one may be no document at all; but if it is, then everything in it but the
numbers is as it was.
-/

namespace WebModules.Json

open Input

/-! Numbers end where their characters end -/

def isNumeric (c : Char) : Bool :=
  c.isDigit || c == '-' || c == '+' || c == '.' || c == 'e' || c == 'E'

/-- Only characters of numbers stand between two places. -/
def Passes (i j : Input) : Prop := ∃ cs, i.rest = cs ++ j.rest ∧ ∀ c ∈ cs, isNumeric c

theorem Passes.refl (i : Input) : Passes i i := ⟨[], rfl, by simp⟩

theorem Passes.trans {i j k : Input} (h : Passes i j) (h' : Passes j k) : Passes i k := by
  obtain ⟨cs, hrest, hcs⟩ := h
  obtain ⟨ds, hrest', hds⟩ := h'
  refine ⟨cs ++ ds, by rw [hrest, hrest', List.append_assoc], ?_⟩
  intro c hc
  exact (List.mem_append.1 hc).elim (hcs c) (hds c)

theorem isNumeric_of_digit {c : Char} (h : c.isDigit) : isNumeric c := by
  simp [isNumeric, h]

theorem passes_next {i : Input} {c : Char} {r : List Char} (h : i.rest = c :: r) (hc : isNumeric c) :
    Passes i i.next := by
  refine ⟨[c], ?_, by simpa using hc⟩
  rw [Input.next, h]
  rfl

theorem passes_skipDigits (i : Input) : Passes i (skipDigits i).2 := by
  refine ⟨i.rest.takeWhile Char.isDigit, ?_, ?_⟩
  · have hdrop : (i.rest.takeWhile Char.isDigit ++ i.rest.dropWhile Char.isDigit).drop
        (i.rest.takeWhile Char.isDigit).length = i.rest.dropWhile Char.isDigit := List.drop_left
    rw [List.takeWhile_append_dropWhile] at hdrop
    rw [skipDigits, skip, hdrop, List.takeWhile_append_dropWhile]
  · intro c hc
    exact isNumeric_of_digit (List.mem_takeWhile_imp hc)

theorem passes_addDigits (n count : Nat) (i : Input) : Passes i (addDigits n count i).2.2 := by
  fun_induction addDigits n count i with
  | case1 n count pos => exact .refl _
  | case2 n count c r pos h ih =>
      have hstep : Passes ⟨c :: r, pos⟩ ⟨r, pos + 1⟩ :=
        ⟨[c], rfl, by simpa using isNumeric_of_digit h.1⟩
      exact hstep.trans ih
  | case3 n count c r pos h => exact .refl _

theorem passes_addExponentDigits (n : Nat) (i : Input) : Passes i (addExponentDigits n i).2.2 := by
  fun_induction addExponentDigits n i with
  | case1 n pos => exact .refl _
  | case2 n c r pos hd hlarge => exact ⟨[c], rfl, by simpa using isNumeric_of_digit hd⟩
  | case3 n c r pos hd hlarge ih =>
      have hstep : Passes ⟨c :: r, pos⟩ ⟨r, pos + 1⟩ := ⟨[c], rfl, by simpa using isNumeric_of_digit hd⟩
      exact hstep.trans ih
  | case4 n c r pos hd => exact .refl _

variable {lenient negative : Bool} {digits : Nat} {exponent : Int} {i j : Input} {n : Json.Number}

theorem passes_real (h : real lenient negative digits exponent i = .ok (n, j)) : Passes i j := by
  rw [real] at h
  split at h
  · cases h
    exact .refl _
  · split at h
    · cases h
      exact .refl _
    · cases h

theorem head_of_rest {c : Char} (h : i.rest.head? = some c) : ∃ r, i.rest = c :: r := by
  cases hrest : i.rest with
  | nil => simp [hrest] at h
  | cons d r =>
      rw [hrest, List.head?_cons, Option.some.injEq] at h
      exact ⟨r, by rw [h]⟩

theorem passes_readExponent {c : Char} (hc : i.rest.head? = some c) (hn : isNumeric c)
    (h : readExponent lenient negative digits exponent i = .ok (n, j)) : Passes i j := by
  obtain ⟨r, hrest⟩ := head_of_rest hc
  have hletter : Passes i i.next := passes_next hrest hn
  rw [readExponent] at h
  generalize i.next = i at h hletter
  have hsign : Passes i (if i.rest.head? = some '+' ∨ i.rest.head? = some '-' then i.next else i) := by
    split
    · rename_i hs
      rcases hs with hs | hs
      · obtain ⟨r, hr⟩ := head_of_rest hs
        exact passes_next hr rfl
      · obtain ⟨r, hr⟩ := head_of_rest hs
        exact passes_next hr rfl
    · exact .refl i
  generalize (if i.rest.head? = some '+' ∨ i.rest.head? = some '-' then i.next else i) = k at h hsign
  apply (hletter.trans hsign).trans
  cases hk : k.rest with
  | nil =>
      rw [hk] at h
      cases h
  | cons d r =>
      rw [hk] at h
      dsimp only at h
      split at h
      · rename_i hd
        apply (passes_next hk (isNumeric_of_digit hd)).trans
        have hdigits := passes_addExponentDigits (digitValue d) k.next
        split at h
        · rename_i heq
          rw [heq] at hdigits
          exact hdigits.trans (passes_real h)
        · rename_i heq
          rw [heq] at hdigits
          apply hdigits.trans
          split at h
          · cases h
          · cases h
            exact passes_skipDigits _
      · cases h

theorem passes_endReal (h : endReal lenient negative digits exponent i = .ok (n, j)) : Passes i j := by
  rw [endReal] at h
  split at h
  · rename_i hletter
    rcases hletter with hletter | hletter
    · exact passes_readExponent hletter rfl h
    · exact passes_readExponent hletter rfl h
  · exact passes_real h

theorem passes_readFraction (hp : i.rest.head? = some '.')
    (h : readFraction lenient negative digits exponent i = .ok (n, j)) : Passes i j := by
  obtain ⟨r, hrest⟩ := head_of_rest hp
  apply (passes_next hrest rfl).trans
  rw [readFraction] at h
  dsimp only at h
  have hdigits := passes_addDigits digits 0 i.next
  apply hdigits.trans
  apply (passes_skipDigits _).trans
  split at h
  · rw [failAtEnd, failNext] at h
    cases h
  · exact passes_endReal h

theorem passes_endInteger (h : endInteger lenient negative digits i = .ok (n, j)) : Passes i j := by
  rw [endInteger] at h
  split at h
  · rename_i hp
    exact passes_readFraction hp h
  · rename_i hletter
    exact passes_readExponent hletter rfl h
  · rename_i hletter
    exact passes_readExponent hletter rfl h
  · split at h
    · cases h
      exact .refl i
    · split at h <;> cases h <;> exact .refl i

theorem passes_readNumber (h : readNumber lenient negative i = .ok (n, j)) : Passes i j := by
  rw [readNumber.eq_def] at h
  split at h
  · cases h
  · rename_i r hrest
    split at h
    · cases h
    · exact (passes_next hrest rfl).trans (passes_endInteger h)
  · split at h
    · cases h
    · dsimp only at h
      apply (passes_addDigits 0 0 i).trans
      split at h
      · exact passes_endInteger h
      · apply (passes_skipDigits _).trans
        split at h
        · rename_i hp
          exact passes_readFraction hp h
        · exact passes_endReal h

/-! Texts of numbers -/

/-- A text that starts with a digit and goes on with characters of numbers. -/
def Numeral (cs : List Char) : Prop := ∃ d r, cs = d :: r ∧ d.isDigit ∧ ∀ c ∈ r, isNumeric c

theorem Numeral.append {cs more : List Char} (h : Numeral cs) (hm : ∀ c ∈ more, isNumeric c) :
    Numeral (cs ++ more) := by
  obtain ⟨d, r, rfl, hd, hr⟩ := h
  refine ⟨d, r ++ more, rfl, hd, ?_⟩
  intro c hc
  exact (List.mem_append.1 hc).elim (hr c) (hm c)

theorem Numeral.numeric {cs : List Char} (h : Numeral cs) : ∀ c ∈ cs, isNumeric c := by
  obtain ⟨d, r, rfl, hd, hr⟩ := h
  intro c hc
  rcases List.mem_cons.1 hc with rfl | hc
  · exact isNumeric_of_digit hd
  · exact hr c hc

theorem digits_toDigits (n : Nat) : ∀ c ∈ Nat.toDigits 10 n, c.isDigit :=
  fun _ hc => Nat.isDigit_of_mem_toDigits (by decide) (by decide) hc

theorem numeral_of_digits {cs : List Char} (hne : cs ≠ []) (h : ∀ c ∈ cs, c.isDigit) : Numeral cs := by
  obtain ⟨d, r, rfl⟩ := List.exists_cons_of_ne_nil hne
  refine ⟨d, r, rfl, h d List.mem_cons_self, ?_⟩
  intro c hc
  exact isNumeric_of_digit (h c (List.mem_cons_of_mem _ hc))

theorem numeral_toDigits (n : Nat) : Numeral (Nat.toDigits 10 n) :=
  numeral_of_digits Nat.toDigits_ne_nil (digits_toDigits n)

/-- A text of a number, with or without a sign. -/
def Signed (cs : List Char) : Prop := Numeral cs ∨ ∃ r, cs = '-' :: r ∧ Numeral r

theorem Signed.numeric {cs : List Char} (h : Signed cs) : ∀ c ∈ cs, isNumeric c := by
  rcases h with h | ⟨r, rfl, h⟩
  · exact h.numeric
  · intro c hc
    rcases List.mem_cons.1 hc with rfl | hc
    · rfl
    · exact h.numeric c hc

theorem signed_integer (v : Int) : Signed (toString v).toList := by
  rw [Int.toString_eq_repr, Int.repr_eq_if]
  split
  · exact .inl (by simpa using numeral_toDigits v.toNat)
  · exact .inr ⟨_, by simp, numeral_toDigits (-v).toNat⟩

theorem numeral_realText (d : Number.Decimal) : Numeral (realText d).toList := by
  have hzeros (n : Int) : ∀ c ∈ List.replicate n.toNat '0', isNumeric c := by
    intro c hc
    rw [List.eq_of_mem_replicate hc]
    rfl
  have hdigits := digits_toDigits d.digits
  rw [realText, String.toList_ofList]
  split
  · exact ⟨'0', ['.', '0'], rfl, rfl, List.all_eq_true.1 rfl⟩
  · split
    · exact ((numeral_toDigits _).append (hzeros _)).append (List.all_eq_true.1 rfl)
    · split
      · rename_i hpoint
        have hne : (Nat.toDigits 10 d.digits).take (((Nat.toDigits 10 d.digits).length : Int) + d.exponent).toNat ≠ [] := by
          rw [ne_eq, List.take_eq_nil_iff]
          rintro (hnil | hpos)
          · omega
          · exact Nat.toDigits_ne_nil hpos
        apply (numeral_of_digits hne fun c hc => hdigits c (List.mem_of_mem_take hc)).append
        intro c hc
        rcases List.mem_cons.1 hc with rfl | hc
        · rfl
        · exact isNumeric_of_digit (hdigits c (List.mem_of_mem_drop hc))
      · have hstart : Numeral "0.".toList := ⟨'0', ['.'], rfl, rfl, List.all_eq_true.1 rfl⟩
        have hexponent (v : Int) : ∀ c ∈ 'e' :: (toString v).toList, isNumeric c := by
          intro c hc
          rcases List.mem_cons.1 hc with rfl | hc
          · rfl
          · exact (signed_integer v).numeric c hc
        split
        · exact (hstart.append (hzeros _)).append fun c hc => isNumeric_of_digit (hdigits c hc)
        · dsimp only
          have htail := hexponent ((Nat.toDigits 10 d.digits).length + d.exponent - 1)
          generalize 'e' :: (toString (((Nat.toDigits 10 d.digits).length : Int) + d.exponent - 1)).toList =
            exponent at htail
          have hne := Nat.toDigits_ne_nil (n := d.digits) (b := 10)
          generalize Nat.toDigits 10 d.digits = digits at hdigits hne
          split
          · exact ⟨_, exponent, rfl, hdigits _ List.mem_cons_self, htail⟩
          · rename_i digit others _
            refine Numeral.append ⟨digit, '.' :: others, rfl, hdigits _ List.mem_cons_self, ?_⟩ htail
            intro c hc
            rcases List.mem_cons.1 hc with rfl | hc
            · rfl
            · exact isNumeric_of_digit (hdigits c (List.mem_cons_of_mem _ hc))
          · exact absurd rfl hne

/-! Outlines -/

mutual

/-- A document in which numbers and truth values are nothing. -/
def outline : Json → Json
  | string s => string s
  | array items => array (outlineItems items)
  | object fields => object (outlineFields fields)
  | null | bool _ | number _ => null

def outlineItems : List Json → List Json
  | [] => []
  | item :: items => outline item :: outlineItems items

def outlineFields : List (String × Json) → List (String × Json)
  | [] => []
  | (name, value) :: fields => (name, outline value) :: outlineFields fields

end

theorem outlineItems_eq (items : List Json) : outlineItems items = items.map outline := by
  induction items with
  | nil => rfl
  | cons item items ih => rw [outlineItems, ih, List.map_cons]

theorem outlineFields_eq (fields : List (String × Json)) :
    outlineFields fields = fields.map fun f => (f.1, outline f.2) := by
  induction fields with
  | nil => rfl
  | cons field fields ih =>
      obtain ⟨name, value⟩ := field
      rw [outlineFields, ih, List.map_cons]

/-- A text of which, wherever an item can stand, nothing is read but a value with the outline of a
given one.  Of a number some characters may be left. -/
def Rereads (read : Input → Except Failure (Json × Input)) (text : List Char) (j : Json) : Prop :=
  ∀ rest pos found, Ends rest → read ⟨text ++ rest, pos⟩ = .ok found →
    found.1.outline = j.outline ∧ ∃ extra, found.2.rest = extra ++ rest ∧ ∀ c ∈ extra, isNumeric c

variable {read : Input → Except Failure (Json × Input)} {text : List Char} {depth : Nat} {rest : List Char}

theorem Reads.rereads {j' : Json} (h : Reads read text j') {j : Json} (ho : j'.outline = j.outline) :
    Rereads read text j := by
  intro rest pos found hends hread
  obtain ⟨last, hlast⟩ := h rest pos hends
  rw [hlast] at hread
  cases hread
  exact ⟨ho, [], rfl, by simp⟩

theorem not_isBlank_of_numeric {c : Char} (h : isNumeric c) : isBlank c = false := by
  by_cases hd : c.isDigit
  · exact not_isBlank_of_digit hd
  · simp only [isNumeric, hd, Bool.or_eq_true, beq_iff_eq, Bool.false_or] at h
    rcases h with (((rfl | rfl) | rfl) | rfl) | rfl <;> rfl

theorem numeric_ne {c d : Char} (h : isNumeric c) (hd : isNumeric d = false) : c ≠ d := by
  rintro rfl
  rw [h] at hd
  cases hd

/-- What follows the characters of a number is all that is left after some of them. -/
theorem Passes.extra {pos : Nat} (h : Passes ⟨text ++ rest, pos⟩ j) (ht : ∀ c ∈ text, isNumeric c) (he : Ends rest) :
    ∃ extra, j.rest = extra ++ rest ∧ ∀ c ∈ extra, isNumeric c := by
  obtain ⟨cs, hrest, hcs⟩ := h
  obtain ⟨e, r, rfl, hends⟩ := he
  rcases List.append_eq_append_iff.1 hrest with ⟨extra, rfl, hover⟩ | ⟨extra, rfl, hover⟩
  · cases extra with
    | nil => exact ⟨[], hover.symm, by simp⟩
    | cons c extra =>
        obtain ⟨rfl, -⟩ := List.cons.inj hover
        have hc := hcs e (by simp)
        rcases hends with rfl | rfl <;> cases hc
  · exact ⟨extra, hover, fun c hc => ht c (List.mem_append_right _ hc)⟩

/-! Items and fields -/

/-- No item goes on with a character of a number. -/
theorem extra_eq_nil_of_items {extra : List Char} (ho : ∀ c ∈ extra, isNumeric c) {fuel pos : Nat}
    {found : List Json × Input} (h : readItems read fuel false ⟨extra ++ rest, pos⟩ = .ok found) : extra = [] := by
  cases extra with
  | nil => rfl
  | cons c extra =>
      have hc := ho c List.mem_cons_self
      cases fuel with
      | zero => cases h
      | succ fuel =>
          rw [List.cons_append, readItems, skipBlanks_cons (not_isBlank_of_numeric hc)] at h
          simp [numeric_ne hc (d := ']') rfl, numeric_ne hc (d := ',') rfl, failNext] at h

theorem rereadItems_later {texts : List (List Char)} {items : List Json}
    (h : List.Forall₂ (fun text item => Starts text ∧ Rereads read text item) texts items)
    {fuel : Nat} {i : Input} {extra : List Char} (hi : i.rest = extra ++ (later depth ']' texts ++ rest))
    (ho : ∀ c ∈ extra, isNumeric c) {found : List Json × Input} (hr : readItems read fuel false i = .ok found) :
    found.1.map outline = items.map outline ∧ found.2.rest = rest := by
  induction h generalizing fuel i extra found with
  | nil =>
      obtain ⟨text, pos⟩ := i
      obtain rfl : text = extra ++ (later depth ']' [] ++ rest) := hi
      obtain rfl := extra_eq_nil_of_items ho hr
      cases fuel with
      | zero => cases hr
      | succ fuel =>
          rw [List.nil_append, readItems_end] at hr
          cases hr
          exact ⟨rfl, rfl⟩
  | @cons text item texts items head tail ih =>
      obtain ⟨hstarts, hitem⟩ := head
      obtain ⟨whole, pos⟩ := i
      obtain rfl : whole = extra ++ (later depth ']' (text :: texts) ++ rest) := hi
      obtain rfl := extra_eq_nil_of_items ho hr
      cases fuel with
      | zero => cases hr
      | succ fuel =>
          obtain ⟨next, hnext⟩ := readItems_next read depth fuel hstarts texts rest pos
          rw [List.nil_append, hnext] at hr
          obtain ⟨value, hvalue, hrest⟩ := bind_eq_ok hr
          obtain ⟨values, hvalues, hfound⟩ := bind_eq_ok hrest
          cases hfound
          obtain ⟨houtline, extra, hover, hnumeric⟩ := hitem _ _ _ (ends_later depth ']' texts rest) hvalue
          obtain ⟨houtlines, hleft⟩ := ih hover hnumeric hvalues
          exact ⟨by rw [List.map_cons, List.map_cons, houtline, houtlines], hleft⟩

theorem rereadItems_bracketed {item : Json} (hs : Starts text) (ht : Rereads read text item)
    {texts : List (List Char)} {items : List Json}
    (h : List.Forall₂ (fun text item => Starts text ∧ Rereads read text item) texts items)
    {fuel pos : Nat} {found : List Json × Input} (hr : readItems read fuel true
      ⟨line (depth + 1) ++ (text ++ (later depth ']' texts ++ rest)), pos⟩ = .ok found) :
    found.1.map outline = (item :: items).map outline ∧ found.2.rest = rest := by
  cases fuel with
  | zero => cases hr
  | succ fuel =>
      rw [readItems_first _ _ hs] at hr
      obtain ⟨value, hvalue, hrest⟩ := bind_eq_ok hr
      obtain ⟨values, hvalues, hfound⟩ := bind_eq_ok hrest
      cases hfound
      obtain ⟨houtline, extra, hover, hnumeric⟩ := ht _ _ _ (ends_later depth ']' texts rest) hvalue
      obtain ⟨houtlines, hleft⟩ := rereadItems_later h hover hnumeric hvalues
      exact ⟨by rw [List.map_cons, List.map_cons, houtline, houtlines], hleft⟩

variable {value : String → Input → Except Failure (Json × Input)}

/-- A text of which nothing is read but a field with a name and a value with a given outline. -/
def RereadsField (value : String → Input → Except Failure (Json × Input)) (text : List Char)
    (field : String × Json) : Prop :=
  ∃ inner, text = fieldText field.1 inner ∧ Rereads (value field.1) (' ' :: inner) field.2

/-- No field goes on with a character of a number. -/
theorem extra_eq_nil_of_fields {extra : List Char} (ho : ∀ c ∈ extra, isNumeric c) {fuel pos : Nat}
    {found : List (String × Json) × Input}
    (h : readFields false value fuel false ⟨extra ++ rest, pos⟩ = .ok found) : extra = [] := by
  cases extra with
  | nil => rfl
  | cons c extra =>
      have hc := ho c List.mem_cons_self
      cases fuel with
      | zero => cases h
      | succ fuel =>
          rw [List.cons_append, readFields, skipBlanks_cons (not_isBlank_of_numeric hc)] at h
          simp [numeric_ne hc (d := '}') rfl, numeric_ne hc (d := ',') rfl, failNext] at h

theorem rereadFields_later {texts : List (List Char)} {fields : List (String × Json)}
    (h : List.Forall₂ (RereadsField value) texts fields) {fuel : Nat} {i : Input} {extra : List Char}
    (hi : i.rest = extra ++ (later depth '}' texts ++ rest)) (ho : ∀ c ∈ extra, isNumeric c)
    {found : List (String × Json) × Input} (hr : readFields false value fuel false i = .ok found) :
    outlineFields found.1 = outlineFields fields ∧ found.2.rest = rest := by
  induction h generalizing fuel i extra found with
  | nil =>
      obtain ⟨text, pos⟩ := i
      obtain rfl : text = extra ++ (later depth '}' [] ++ rest) := hi
      obtain rfl := extra_eq_nil_of_fields ho hr
      cases fuel with
      | zero => cases hr
      | succ fuel =>
          rw [List.nil_append, readFields_end] at hr
          cases hr
          exact ⟨rfl, rfl⟩
  | @cons text field texts fields head tail ih =>
      obtain ⟨inner, rfl, hfield⟩ := head
      obtain ⟨whole, pos⟩ := i
      obtain rfl : whole = extra ++ (later depth '}' (fieldText field.1 inner :: texts) ++ rest) := hi
      obtain rfl := extra_eq_nil_of_fields ho hr
      cases fuel with
      | zero => cases hr
      | succ fuel =>
          obtain ⟨next, hnext⟩ := readFields_next value depth fuel field.1 inner texts rest pos
          rw [List.nil_append, hnext] at hr
          obtain ⟨found, hfound, hrest⟩ := bind_eq_ok hr
          obtain ⟨others, hothers, hpaired⟩ := bind_eq_ok hrest
          cases hpaired
          obtain ⟨houtline, extra, hover, hnumeric⟩ := hfield _ _ _ (ends_later depth '}' texts rest) hfound
          obtain ⟨houtlines, hleft⟩ := ih hover hnumeric hothers
          exact ⟨by rw [outlineFields, outlineFields, houtline, houtlines], hleft⟩

theorem rereadFields_bracketed {field : String × Json} (ht : RereadsField value text field)
    {texts : List (List Char)} {fields : List (String × Json)}
    (h : List.Forall₂ (RereadsField value) texts fields) {fuel pos : Nat}
    {found : List (String × Json) × Input} (hr : readFields false value fuel true
      ⟨line (depth + 1) ++ (text ++ (later depth '}' texts ++ rest)), pos⟩ = .ok found) :
    outlineFields found.1 = outlineFields (field :: fields) ∧ found.2.rest = rest := by
  cases fuel with
  | zero => cases hr
  | succ fuel =>
      obtain ⟨inner, rfl, hfield⟩ := ht
      obtain ⟨next, hnext⟩ := readFields_first value (depth + 1) fuel field.1 inner
        (later depth '}' texts ++ rest) pos
      rw [hnext] at hr
      obtain ⟨found, hfound, hrest⟩ := bind_eq_ok hr
      obtain ⟨others, hothers, hpaired⟩ := bind_eq_ok hrest
      cases hpaired
      obtain ⟨houtline, extra, hover, hnumeric⟩ := hfield _ _ _ (ends_later depth '}' texts rest) hfound
      obtain ⟨houtlines, hleft⟩ := rereadFields_later h hover hnumeric hothers
      exact ⟨by rw [outlineFields, outlineFields, houtline, houtlines], hleft⟩

/-! Values -/

theorem rereads_signed {cs : List Char} (h : Signed cs) (depth : Nat) (n : Json.Number) :
    Starts cs ∧ Rereads (readValue false depth) cs (.number n) := by
  have hnumeric := h.numeric
  rcases h with ⟨d, r, rfl, hd, hr⟩ | ⟨cs, rfl, hcs⟩
  · refine ⟨⟨d, r, rfl, not_isBlank_of_digit hd, digit_ne hd rfl⟩, fun rest pos found hends hread => ?_⟩
    rw [List.cons_append, readValue_digit depth hd] at hread
    obtain ⟨⟨number, after⟩, hnumber, hfound⟩ := bind_eq_ok hread
    cases hfound
    have hpasses := passes_readNumber hnumber
    rw [← List.cons_append] at hpasses
    exact ⟨rfl, hpasses.extra hnumeric hends⟩
  · refine ⟨⟨'-', cs, rfl, rfl, by decide⟩, fun rest pos found hends hread => ?_⟩
    rw [List.cons_append, readValue_minus] at hread
    obtain ⟨⟨number, after⟩, hnumber, hfound⟩ := bind_eq_ok hread
    cases hfound
    exact ⟨rfl, (passes_readNumber hnumber).extra hcs.numeric hends⟩

theorem rereads_number (depth k : Nat) (n : Json.Number) :
    Starts (prettyAt k (.number n)).toList ∧
      Rereads (readValue false depth) (prettyAt k (.number n)).toList (.number n) := by
  rw [prettyAt]
  cases n with
  | integer v => exact rereads_signed (signed_integer v) depth _
  | real negative magnitude =>
      cases magnitude with
      | infinite =>
          obtain ⟨hstarts, hreads⟩ := readsValue_null depth k
          exact ⟨hstarts, hreads.rereads rfl⟩
      | finite m e =>
          apply rereads_signed
          have hnumeral := numeral_realText (Number.Binary64.shortest m e)
          cases negative with
          | false => exact .inl (by simpa [numberText] using hnumeral)
          | true => exact .inr ⟨_, by simp [numberText], hnumeral⟩

theorem readValue_tooDeep {c : Char} (hc : c = '[' ∨ c = '\x7b') (rest : List Char) (pos : Nat)
    (found : Json × Input) : readValue false 0 ⟨c :: rest, pos⟩ ≠ .ok found := by
  intro h
  rw [readValue.eq_def] at h
  rcases hc with rfl | rfl <;> cases h

theorem rereads_array {k : Nat} {items : List Json}
    (h : ∀ j ∈ items, ∀ depth, Starts (prettyAt (k + 1) j).toList ∧
      Rereads (readValue false depth) (prettyAt (k + 1) j).toList j) (depth : Nat) :
    Starts (prettyAt k (.array items)).toList ∧
      Rereads (readValue false depth) (prettyAt k (.array items)).toList (.array items) := by
  rw [prettyAt, prettyItems_eq, toList_bracketed (o := '[') (c := ']') rfl rfl]
  cases items with
  | nil =>
      refine ⟨⟨'[', [']'], rfl, rfl, by decide⟩, fun rest pos found hends hread => ?_⟩
      change readValue false depth ⟨'[' :: ']' :: rest, pos⟩ = .ok found at hread
      cases depth with
      | zero => exact absurd hread (readValue_tooDeep (.inl rfl) _ _ _)
      | succ depth =>
          rw [readValue_array] at hread
          cases hread
          exact ⟨rfl, [], rfl, by simp⟩
  | cons item items =>
      refine ⟨⟨'[', _, rfl, rfl, by decide⟩, fun rest pos found hends hread => ?_⟩
      simp only [List.map_cons, List.cons_append, List.append_assoc] at hread
      cases depth with
      | zero => exact absurd hread (readValue_tooDeep (.inl rfl) _ _ _)
      | succ depth =>
          obtain ⟨hs, hr⟩ := h item List.mem_cons_self depth
          have hlater : List.Forall₂ (fun text item => Starts text ∧ Rereads (readValue false depth) text item)
              ((items.map (prettyAt (k + 1))).map String.toList) items := by
            rw [List.map_map, List.forall₂_map_left_iff, List.forall₂_same]
            exact fun j hj => h j (List.mem_cons_of_mem _ hj) depth
          rw [readValue_array] at hread
          obtain ⟨⟨values, after⟩, hvalues, hfound⟩ := bind_eq_ok hread
          cases hfound
          obtain ⟨houtline, hleft⟩ := rereadItems_bracketed hs hr hlater hvalues
          refine ⟨?_, [], hleft, by simp⟩
          rw [outline, outline, outlineItems_eq, outlineItems_eq, houtline]

theorem Rereads.after_blank {depth : Nat} {text : List Char} {j : Json}
    (h : Rereads (readValue false depth) text j) (hs : Starts text) :
    Rereads (readValue false depth) (' ' :: text) j := by
  intro rest pos found hends hread
  rw [List.cons_append, readValue_blank depth hs] at hread
  exact h rest (pos + 1) found hends hread

theorem rereads_object {k : Nat} {fields : List (String × Json)}
    (h : ∀ f ∈ fields, ∀ depth, Starts (prettyAt (k + 1) f.2).toList ∧
      Rereads (readValue false depth) (prettyAt (k + 1) f.2).toList f.2) (depth : Nat) :
    Starts (prettyAt k (.object fields)).toList ∧
      Rereads (readValue false depth) (prettyAt k (.object fields)).toList (.object fields) := by
  rw [prettyAt, prettyFields_eq, toList_bracketed (o := '\x7b') (c := '\x7d') rfl rfl]
  cases fields with
  | nil =>
      refine ⟨⟨'\x7b', ['\x7d'], rfl, rfl, by decide⟩, fun rest pos found hends hread => ?_⟩
      change readValue false depth ⟨'\x7b' :: '\x7d' :: rest, pos⟩ = .ok found at hread
      cases depth with
      | zero => exact absurd hread (readValue_tooDeep (.inr rfl) _ _ _)
      | succ depth =>
          rw [readValue_object] at hread
          cases hread
          exact ⟨rfl, [], rfl, by simp⟩
  | cons field fields =>
      refine ⟨⟨'\x7b', _, rfl, rfl, by decide⟩, fun rest pos found hends hread => ?_⟩
      simp only [List.map_cons, List.cons_append, List.append_assoc] at hread
      cases depth with
      | zero => exact absurd hread (readValue_tooDeep (.inr rfl) _ _ _)
      | succ depth =>
          have hfield (f : String × Json) (hf : f ∈ field :: fields) :
              RereadsField (fun _ => readValue false depth)
                (quoted f.1 ++ ": " ++ prettyAt (k + 1) f.2).toList f :=
            ⟨_, toList_field _ _, (h f hf depth).2.after_blank (h f hf depth).1⟩
          have hlater : List.Forall₂ (RereadsField fun _ => readValue false depth)
              ((fields.map fun f => quoted f.1 ++ ": " ++ prettyAt (k + 1) f.2).map String.toList) fields := by
            rw [List.map_map, List.forall₂_map_left_iff, List.forall₂_same]
            exact fun f hf => hfield f (List.mem_cons_of_mem _ hf)
          rw [readValue_object] at hread
          obtain ⟨⟨values, after⟩, hvalues, hfound⟩ := bind_eq_ok hread
          cases hfound
          obtain ⟨houtline, hleft⟩ := rereadFields_bracketed (hfield field List.mem_cons_self) hlater hvalues
          exact ⟨by rw [outline, outline, houtline], [], hleft, by simp⟩

/-- Whatever is read where a value has been printed has the outline of that value. -/
theorem rereadsValue (j : Json) (depth k : Nat) : Starts (prettyAt k j).toList ∧
    Rereads (readValue false depth) (prettyAt k j).toList j := by
  match j with
  | .null =>
      obtain ⟨hstarts, hreads⟩ := readsValue_null depth k
      exact ⟨hstarts, hreads.rereads rfl⟩
  | .bool b =>
      obtain ⟨hstarts, hreads⟩ := readsValue_bool depth k b
      exact ⟨hstarts, hreads.rereads rfl⟩
  | .number n => exact rereads_number depth k n
  | .string s =>
      obtain ⟨hstarts, hreads⟩ := readsValue_string depth k s
      exact ⟨hstarts, hreads.rereads rfl⟩
  | .array items => exact rereads_array (fun item _ depth => rereadsValue item depth (k + 1)) depth
  | .object fields => exact rereads_object (fun field _ depth => rereadsValue field.2 depth (k + 1)) depth
termination_by sizeOf j
decreasing_by
  · rename_i hitem
    have := List.sizeOf_lt_of_mem hitem
    simp
    omega
  · rename_i hfield
    have := List.sizeOf_lt_of_mem hfield
    obtain ⟨name, value⟩ := field
    simp at this ⊢
    omega

theorem outline_of_parse_pretty {j j' : Json} (h : parse (j.pretty ++ "\n") = .ok j') :
    j'.outline = j.outline := by
  have htext : (j.pretty ++ "\n").toList = (prettyAt 0 j).toList ++ ['\n'] := by
    rw [String.toList_append]
    rfl
  have hends : Ends ['\n'] := ⟨'\n', [], rfl, .inr rfl⟩
  obtain ⟨after, hread, -⟩ := parse_eq_ok h
  rw [htext] at hread
  exact ((rereadsValue j maxDepth 0).2 _ _ _ hends hread).1

/-! What is read again of a regular document -/

theorem setField_map {α β : Type} (change : α → β) (name : String) (value : α) (fields : List (String × α)) :
    setField name (change value) (fields.map fun f => (f.1, change f.2)) =
      (setField name value fields).map fun f => (f.1, change f.2) := by
  induction fields with
  | nil => rfl
  | cons field fields ih =>
      rw [List.map_cons, setField, setField, ih]
      split <;> rfl

theorem distinctFields_map {α β : Type} (change : α → β) (fields : List (String × α)) :
    distinctFields (fields.map fun f => (f.1, change f.2)) =
      (distinctFields fields).map fun f => (f.1, change f.2) := by
  have hfold (found : List (String × α)) :
      (fields.map fun f => (f.1, change f.2)).foldl (fun found f => setField f.1 f.2 found)
          (found.map fun f => (f.1, change f.2)) =
        (fields.foldl (fun found f => setField f.1 f.2 found) found).map fun f => (f.1, change f.2) := by
    induction fields generalizing found with
    | nil => rfl
    | cons field fields ih =>
        simp only [List.map_cons, List.foldl_cons]
        rw [setField_map, ih]
  exact hfold []

mutual

theorem outline_distinct : ∀ j : Json, (distinct j).outline = distinct j.outline
  | .null | .bool _ | .number _ | .string _ => by simp [distinct, outline]
  | .array items => by rw [distinct, outline, outline, distinct, outline_distinctItems items]
  | .object fields => by
      rw [distinct, outline, outline, distinct, ← outline_distinctValues fields, outlineFields_eq,
        outlineFields_eq, distinctFields_map]

theorem outline_distinctItems : ∀ items : List Json,
    outlineItems (distinctItems items) = distinctItems (outlineItems items)
  | [] => rfl
  | item :: items => by
      rw [distinctItems, outlineItems, outlineItems, distinctItems, outline_distinct item,
        outline_distinctItems items]

theorem outline_distinctValues : ∀ fields : List (String × Json),
    outlineFields (distinctValues fields) = distinctValues (outlineFields fields)
  | [] => rfl
  | (name, value) :: fields => by
      rw [distinctValues, outlineFields, outlineFields, distinctValues, outline_distinct value,
        outline_distinctValues fields]

end

/-- A document that is printed has the same outline when it is read again. -/
theorem outline_of_read_pretty {P : Json.Number → Prop} {depth : Nat} {j j' : Json} (hr : Regular P depth j)
    (h : Json.read (j.pretty ++ "\n") = .ok j') : j'.outline = j.outline := by
  obtain ⟨found, hparse, rfl⟩ := read_eq_ok h
  rw [outline_distinct, outline_of_parse_pretty hparse, ← outline_distinct, hr.distinct_eq]

end WebModules.Json
