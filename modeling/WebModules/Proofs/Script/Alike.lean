import Mathlib.Data.List.Find
import WebModules.Proofs.Script.Border

/-!
The readings of one token in two texts that agree up to a border are alike: they tell the same
token, and end at places beside each other, unless the token passes the border.
-/

namespace WebModules.Script

open Cursor

def complaints (faults : List Fault) : List Complaint := faults.map Fault.complaint

@[simp] theorem complaints_nil : complaints [] = [] := rfl

theorem complaints_append {faults faults' others others' : List Fault}
    (h : complaints faults' = complaints faults) (h' : complaints others' = complaints others) :
    complaints (faults' ++ others') = complaints (faults ++ others) := by
  simp only [complaints, List.map_append] at h h' ⊢
  rw [h, h']

theorem complaints_singleton {fault fault' : Fault} (h : fault'.complaint = fault.complaint) :
    complaints [fault'] = complaints [fault] := congrArg ([·]) h

namespace Lexer

variable {v v' : List Char} {c c' d d' : Cursor}

/-- Two readings that tell the same, and end at places beside each other. -/
inductive Reading.Alike (v v' : List Char) : Reading → Reading → Prop
  | token (token : Token) {d d' : Cursor} (beside : Beside v v' d d') (value : List Char)
      {fault? fault'? : Option Fault}
      (fault : fault'?.map Fault.complaint = fault?.map Fault.complaint)
      {faults faults' : List Fault} (noted : complaints faults' = complaints faults) :
      Alike v v' (.token token d value fault? faults) (.token token d' value fault'? faults')
  | passed {d d' : Cursor} (beside : Beside v v' d d') {fault fault' : Fault}
      (noted : fault'.complaint = fault.complaint) : Alike v v' (.passed d fault) (.passed d' fault')

theorem alike_malformed (h : Beside v v' d d') (complaint : Complaint) (pos pos' : Nat)
    {faults faults' : List Fault} (hf : complaints faults' = complaints faults) :
    (malformed d complaint pos faults).Alike v v' (malformed d' complaint pos' faults') := by
  refine .token _ h _ ?_ hf
  rfl

theorem alike_plainToken (h : Beside v v' d d') (token : Token) :
    (plainToken token d).Alike v v' (plainToken token d') := .token _ h _ rfl rfl

/-- Two words that were read in the same way. -/
structure Word.Alike (v v' : List Char) (w w' : Word) : Prop where
  name : w'.name = w.name
  after : Beside v v' w.after w'.after
  escaped : w'.escaped = w.escaped
  complaint : w'.complaint? = w.complaint?
  faults : w'.faults = w.faults

theorem wordFrom_at_border (hb : Border v v') (first : Bool) (skip : Nat) (pos pos' : Nat)
    (h : (wordFrom first skip v pos).after.Within v) :
    (wordFrom first skip v pos).Alike v v' (wordFrom first skip v' pos') := by
  cases hb with
  | ends =>
      simp only [wordFrom]
      exact ⟨rfl, ⟨[], rfl, rfl⟩, rfl, rfl, rfl⟩
  | @quote q hq r r' =>
      cases skip with
      | succ skip =>
          simp only [wordFrom] at h
          exact absurd h (not_suffix_of_length_lt (Nat.lt_succ_of_le (wordFrom_reaches ..).length_le))
      | zero =>
          have hback : q ≠ '\\' := hq.ne (by decide) (by decide)
          have hpart : isNamePart q = false := hq.apply_eq_false (by decide) (by decide)
          simp only [wordFrom, if_neg hback, hpart]
          exact ⟨rfl, ⟨[], rfl, rfl⟩, rfl, rfl, rfl⟩

theorem wordFrom_border (hb : Border v v') (first : Bool) (skip : Nat) (u : List Char)
    (pos pos' : Nat) (h : (wordFrom first skip (u ++ v) pos).after.Within v) :
    (wordFrom first skip (u ++ v) pos).Alike v v' (wordFrom first skip (u ++ v') pos') := by
  induction u generalizing first skip pos pos' with
  | nil => exact wordFrom_at_border hb _ _ _ _ h
  | cons a u ih =>
      cases skip with
      | succ skip =>
          simp only [List.cons_append, wordFrom] at h ⊢
          exact ih _ _ _ _ h
      | zero =>
          by_cases hback : a = '\\'
          · by_cases hu : (u ++ v).head? = some 'u'
            · have hescape := Quoted.escape_border hb hu
              have hne : ¬(u ++ v).head? ≠ some 'u' := fun hne => hne hu
              simp only [List.cons_append, wordFrom, if_pos hback, if_neg hne, hescape,
                if_neg (hb.head?_append u ▸ hne)] at h ⊢
              cases he : Quoted.escape (u ++ v) with
              | mk piece taken =>
                  rw [he] at h
                  cases piece with
                  | text cs =>
                      obtain ⟨hname, hafter, -, hcomplaint, hfaults⟩ := ih false taken _ (pos' + 1) h
                      refine ⟨?_, hafter, rfl, hcomplaint, ?_⟩
                      · dsimp only
                        rw [hname]
                      · dsimp only
                        rw [hfaults]
                  | octal => exact ⟨rfl, ⟨u, rfl, rfl⟩, rfl, rfl, rfl⟩
                  | bad => exact ⟨rfl, ⟨u, rfl, rfl⟩, rfl, rfl, rfl⟩
            · simp only [List.cons_append, wordFrom, if_pos hback, ne_eq, hu, not_false_eq_true,
                if_true, hb.head?_append]
              exact ⟨rfl, ⟨u, rfl, rfl⟩, rfl, rfl, rfl⟩
          · by_cases hpart : isNamePart a
            · simp only [List.cons_append, wordFrom, if_neg hback, if_pos hpart] at h ⊢
              obtain ⟨hname, hafter, hescaped, hcomplaint, hfaults⟩ := ih false 0 _ (pos' + a.utf8Size) h
              exact ⟨congrArg (a :: ·) hname, hafter, hescaped, hcomplaint, hfaults⟩
            · simp only [List.cons_append, wordFrom, if_neg hback, if_neg hpart]
              exact ⟨rfl, ⟨a :: u, rfl, rfl⟩, rfl, rfl, rfl⟩

theorem readWord_after (c : Cursor) : (readWord c).after = (wordFrom true 0 c.rest c.pos).after := by
  unfold readWord
  dsimp only
  split
  · rfl
  · split <;> rfl

theorem complaints_map (pos : Nat) (cs : List Complaint) :
    complaints (cs.map fun complaint => ⟨complaint, pos, ""⟩) = cs := by
  simp [complaints, Function.comp_def]

theorem readWord_alike (hb : Border v v') (hc : Beside v v' c c')
    (h : (readWord c).after.Within v) : (readWord c).Alike v v' (readWord c') := by
  rw [readWord_after] at h
  obtain ⟨u, hu, hu'⟩ := hc
  rw [hu] at h
  obtain ⟨hname, hafter, hescaped, hcomplaint, hfaults⟩ :=
    wordFrom_border hb true 0 u c.pos c'.pos h
  unfold readWord
  dsimp only
  rw [hu, hu', hname, hescaped, hcomplaint, hfaults]
  have hnoted := (complaints_map c'.pos (wordFrom true 0 (u ++ v) c.pos).faults).trans
    (complaints_map c.pos (wordFrom true 0 (u ++ v) c.pos).faults).symm
  split
  · exact alike_malformed hafter _ _ _ hnoted
  · split
    · exact alike_malformed hafter _ _ _ hnoted
    · exact .token _ hafter _ rfl hnoted

/-- Two runs of digits that were read in the same way. -/
structure Digits.Alike (v v' : List Char) (r r' : Digits) : Prop where
  digits : r'.digits = r.digits
  after : Beside v v' r.after r'.after
  faults : complaints r'.faults = complaints r.faults

theorem readDigits_alike (hb : Border v v') (hc : Beside v v' c c') (radix : Nat) :
    (readDigits radix c).Alike v v' (readDigits radix c') := by
  have hp : Spares fun ch => isDigitOf radix ch || ch == '_' := 
    spares_iff.2 ⟨rfl, rfl⟩
  have hrun := hc.takeWhile hb hp
  unfold readDigits
  dsimp only
  rw [hrun]
  refine ⟨rfl, hc.past hb hp, ?_⟩
  dsimp only
  split <;> rfl

theorem endNumber_alike (hb : Border v v') (hd : Beside v v' d d') {faults faults' : List Fault}
    (hf : complaints faults' = complaints faults) :
    (endNumber d faults).Alike v v' (endNumber d' faults') := by
  unfold endNumber
  rw [hd.head? hb]
  split
  · exact alike_malformed hd _ _ _ hf
  · exact .token _ hd _ rfl hf

theorem readExponent_alike (hb : Border v v') (hd : Beside v v' d d') {faults faults' : List Fault}
    (hf : complaints faults' = complaints faults) :
    (readExponent d faults).Alike v v' (readExponent d' faults') := by
  unfold readExponent
  rw [hd.head? hb]
  split
  · rename_i hmark
    have hnext : Beside v v' d.next d'.next := by
      obtain hmark | hmark := hmark
      · exact hd.next hb hmark (by simp [IsQuote])
      · exact hd.next hb hmark (by simp [IsQuote])
    dsimp only
    rw [hnext.head? hb]
    split
    · exact alike_malformed hnext _ _ _ hf
    · rename_i sign hsign
      have hdigits {e e' : Cursor} (he : Beside v v' e e') :
          (if (readDigits 10 e).digits.isEmpty then
            malformed (readDigits 10 e).after (.digitExpected 10) e.pos
              (faults ++ (readDigits 10 e).faults)
          else endNumber (readDigits 10 e).after (faults ++ (readDigits 10 e).faults)).Alike v v'
          (if (readDigits 10 e').digits.isEmpty then
            malformed (readDigits 10 e').after (.digitExpected 10) e'.pos
              (faults' ++ (readDigits 10 e').faults)
          else endNumber (readDigits 10 e').after (faults' ++ (readDigits 10 e').faults)) := by
        obtain ⟨hdigits, hafter, hfaults⟩ := readDigits_alike hb he 10
        rw [hdigits]
        split
        · exact alike_malformed hafter _ _ _ (complaints_append hf hfaults)
        · exact endNumber_alike hb hafter (complaints_append hf hfaults)
      by_cases hs : sign = '+' ∨ sign = '-'
      · simp only [if_pos hs]
        refine hdigits (hnext.next hb hsign ?_)
        obtain rfl | rfl := hs <;> simp [IsQuote]
      · simp only [if_neg hs]
        exact hdigits hnext
  · exact endNumber_alike hb hd hf

theorem readFraction_alike (hb : Border v v') (hd : Beside v v' d d') {faults faults' : List Fault}
    (hf : complaints faults' = complaints faults) :
    (readFraction d faults).Alike v v' (readFraction d' faults') := by
  unfold readFraction
  rw [hd.head? hb]
  split
  · rename_i hdot
    obtain ⟨-, hafter, hfaults⟩ := readDigits_alike hb (hd.next hb hdot (by simp [IsQuote])) 10
    exact readExponent_alike hb hafter (complaints_append hf hfaults)
  · exact readExponent_alike hb hd hf

/-- Whether a run of digits has more than one does not depend on the place that it starts at. -/
theorem next_pos_ne_iff (hc : c.head? = some '0') (radix : Nat) :
    c.next.pos ≠ (readDigits radix c).after.pos ↔
      1 ≠ utf8Length (c.rest.takeWhile fun ch => isDigitOf radix ch || ch == '_') := by
  obtain ⟨r, hr⟩ := List.head?_eq_some_iff.1 hc
  have hnext : c.next.pos = c.pos + 1 := by
    unfold Cursor.next
    rw [hr]
    rfl
  rw [hnext, readDigits, Cursor.past, ne_eq, ne_eq, Nat.add_left_cancel_iff]

theorem readDecimal_alike (hb : Border v v') (hc : Beside v v' c c') :
    (readDecimal c).Alike v v' (readDecimal c') := by
  obtain ⟨hdigits, hafter, hfaults⟩ := readDigits_alike hb hc 10
  have hrun := hc.takeWhile hb (p := fun ch => isDigitOf 10 ch || ch == '_') (spares_iff.2 ⟨rfl, rfl⟩)
  have hhead := hc.head? hb
  have hzero : (c'.head? = some '0' ∧ c'.next.pos ≠ (readDigits 10 c').after.pos) ↔
      c.head? = some '0' ∧ c.next.pos ≠ (readDigits 10 c).after.pos := by
    refine ⟨fun h => ?_, fun h => ?_⟩
    · rw [hhead] at h
      rw [next_pos_ne_iff (hhead ▸ h.1), hrun] at h
      exact ⟨h.1, (next_pos_ne_iff h.1 10).2 h.2⟩
    · have h0 : c'.head? = some '0' := hhead ▸ h.1
      exact ⟨h0, (next_pos_ne_iff h0 10).2 (hrun ▸ (next_pos_ne_iff h.1 10).1 h.2)⟩
  have hlegacy (complaint : Complaint) :
      complaints ((readDigits 10 c').faults ++ [⟨complaint, c'.pos, ""⟩]) =
        complaints ((readDigits 10 c).faults ++ [⟨complaint, c.pos, ""⟩]) :=
    complaints_append hfaults rfl
  unfold readDecimal
  dsimp only
  rw [hhead, hdigits, hafter.head? hb]
  split
  · exact readFraction_alike hb hc rfl
  · split
    · rename_i hn
      exact .token _ (hafter.next hb hn (by simp [IsQuote])) _ rfl hfaults
    · rw [hhead] at hzero
      simp only [hzero]
      split
      · split
        · exact readFraction_alike hb hafter (hlegacy _)
        · split
          · exact alike_malformed hafter _ _ _ hfaults
          · exact .token _ hafter _ rfl (hlegacy _)
      · exact readFraction_alike hb hafter hfaults

theorem readRadix_alike (hb : Border v v') (hc : Beside v v' c.next.next c'.next.next) (radix : Nat) :
    (readRadix radix c).Alike v v' (readRadix radix c') := by
  obtain ⟨hdigits, hafter, hfaults⟩ := readDigits_alike hb hc radix
  unfold readRadix
  dsimp only
  rw [hdigits, hafter.head? hb]
  split
  · exact alike_malformed hafter _ _ _ hfaults
  · split
    · rename_i hn
      exact .token _ (hafter.next hb hn (by simp [IsQuote])) _ rfl hfaults
    · exact endNumber_alike hb hafter hfaults

theorem readNumber_decimal
    (h : ∀ r rest, c.rest = '0' :: r :: rest → r ∉ ['x', 'X', 'o', 'O', 'b', 'B']) :
    readNumber c = readDecimal c := by
  unfold readNumber
  split
  · rename_i r rest hr
    have hr := h r rest hr
    simp only [List.mem_cons, List.not_mem_nil, or_false, not_or] at hr
    simp [hr]
  · rfl

theorem readNumber_decimal_append (hb : Border v v') {u : List Char} (hc : c.rest = u ++ v)
    (hu : ∀ r u', u ≠ '0' :: r :: u') : readNumber c = readDecimal c := by
  refine readNumber_decimal fun r rest hr => ?_
  rw [hc] at hr
  obtain ⟨u', rfl, hr'⟩ := hb.exists_cons hr (by simp [IsQuote])
  cases u' with
  | nil =>
      cases hb with
      | ends => cases hr'
      | quote hq =>
          cases hr'
          obtain rfl | rfl := hq <;> decide
  | cons a u' => exact absurd rfl (hu a u')

theorem readNumber_alike (hb : Border v v') (hc : Beside v v' c c') :
    (readNumber c).Alike v v' (readNumber c') := by
  have hdecimal := readDecimal_alike hb hc
  obtain ⟨u, hu, hu'⟩ := hc
  by_cases hzero : ∃ r u', u = '0' :: r :: u'
  · obtain ⟨r, u, rfl⟩ := hzero
    have hnext : Beside v v' c.next.next c'.next.next :=
      ⟨u, by simp [Cursor.next, hu], by simp [Cursor.next, hu']⟩
    unfold readNumber
    rw [hu, hu']
    simp only [List.cons_append]
    split
    · exact readRadix_alike hb hnext 16
    · split
      · exact readRadix_alike hb hnext 8
      · split
        · exact readRadix_alike hb hnext 2
        · exact hdecimal
  · have hne : ∀ r u', u ≠ '0' :: r :: u' := fun r u' he => hzero ⟨r, u', he⟩
    rwa [readNumber_decimal_append hb hu hne, readNumber_decimal_append hb.symm hu' hne]

/-- What stands between two quotes ends before the border if the string does. -/
theorem readString_interior_within (quote : Char) (h : (readString quote c).after.Within v) :
    v <:+ (Quoted.interior quote c.next.rest).2 := by
  unfold readString at h
  dsimp only at h
  split at h
  · exact h
  · split at h
    · exact Within.of_reaches (c := ⟨(Quoted.interior quote c.next.rest).2, _⟩) h
        (Cursor.reaches_next _)
    · exact h

theorem readString_alike (hb : Border v v') (hc : Beside v v' c c') (quote : Char)
    (h : (readString quote c).after.Within v) :
    (readString quote c).Alike v v' (readString quote c') := by
  have hinside := readString_interior_within quote h
  have hnext : Beside v v' c.next c'.next :=
    hc.next_of_within hb (hinside.trans ⟨_, Quoted.interior_append quote c.next.rest⟩)
  obtain ⟨u, hu, hu'⟩ := hnext
  rw [hu] at hinside
  obtain ⟨w, hw, hsplit⟩ := Quoted.interior_border hb quote u hinside
  have hafter : Beside v v' ⟨(Quoted.interior quote c.next.rest).2,
        c.pos + 1 + utf8Length (Quoted.interior quote c.next.rest).1⟩
      ⟨(Quoted.interior quote c'.next.rest).2,
        c'.pos + 1 + utf8Length (Quoted.interior quote c'.next.rest).1⟩ :=
    ⟨w, by rw [hu, hw], by rw [hu', hsplit]⟩
  have hsame : (Quoted.interior quote c'.next.rest).1 = (Quoted.interior quote c.next.rest).1 := by
    rw [hu, hu', hsplit]
  have hoctals : complaints ((Quoted.octals (Quoted.interior quote c.next.rest).1).map fun pos =>
        ⟨.legacyOctalEscape, c'.pos + 1 + pos, ""⟩) =
      complaints ((Quoted.octals (Quoted.interior quote c.next.rest).1).map fun pos =>
        ⟨.legacyOctalEscape, c.pos + 1 + pos, ""⟩) := by
    simp [complaints]
  rw [hsame] at hafter
  have hhead := hafter.head? hb
  have hend := hafter.next_of_within hb
  unfold readString at h ⊢
  dsimp only [Cursor.head?] at h hhead hend ⊢
  rw [hsame, hhead]
  split
  · exact alike_malformed hafter _ _ _ hoctals
  · rename_i hgood
    simp only [hgood] at h
    split
    · rename_i hclosed
      rw [if_pos hclosed] at h
      exact .token _ (hend h) _ rfl hoctals
    · exact .token _ hafter _ rfl (complaints_append hoctals rfl)

theorem readRegex_alike (hb : Border v v') (hc : Beside v v' c c') (hslash : c.head? = some '/')
    (h : (readRegex c).after.Within v) : (readRegex c).Alike v v' (readRegex c') := by
  obtain ⟨u, hu, hu'⟩ := hc.next hb hslash (by simp [IsQuote])
  have hinside : v <:+ (Quoted.regexBody false false (u ++ v)).2 := by
    rw [← hu]
    unfold readRegex at h
    dsimp only at h
    split at h
    · exact Within.of_reaches (c := ⟨(Quoted.regexBody false false c.next.rest).2, _⟩) h
        ((Cursor.reaches_next _).trans (reaches_past (List.takeWhile_prefix _)))
    · exact h
  obtain ⟨w, hw, hsplit⟩ := Quoted.regexBody_border hb false false u hinside
  have hafter : Beside v v' ⟨(Quoted.regexBody false false c.next.rest).2,
        c.pos + 1 + utf8Length (Quoted.regexBody false false c.next.rest).1⟩
      ⟨(Quoted.regexBody false false c'.next.rest).2,
        c'.pos + 1 + utf8Length (Quoted.regexBody false false c'.next.rest).1⟩ :=
    ⟨w, by rw [hu, hw], by rw [hu', hsplit]⟩
  have hpart : Spares isNamePart := spares_iff.2 (by decide)
  have hhead := hafter.head? hb
  unfold readRegex
  dsimp only [Cursor.head?] at hhead ⊢
  rw [hhead]
  split
  · rename_i hclosed
    have hend := hafter.next hb hclosed (by simp [IsQuote])
    rw [hend.takeWhile hb hpart]
    exact .token _ (hend.past hb hpart) _ rfl rfl
  · exact alike_malformed hafter _ _ _ rfl

theorem readTemplateText_alike (hb : Border v v') (hc : Beside v v' c c')
    (h : (readTemplateText c).after.Within v) :
    (readTemplateText c).Alike v v' (readTemplateText c') := by
  obtain ⟨u, hu, hu'⟩ := hc
  have hinside : v <:+ (Quoted.stretch (u ++ v)).2 := by
    rw [← hu]
    unfold readTemplateText at h
    dsimp only at h
    split at h
    · exact h
    · split at h <;> exact h
  obtain ⟨w, hw, hsplit⟩ := Quoted.stretch_border hb u hinside
  have hafter : Beside v v' ⟨(Quoted.stretch c.rest).2, c.pos + utf8Length (Quoted.stretch c.rest).1⟩
      ⟨(Quoted.stretch c'.rest).2, c'.pos + utf8Length (Quoted.stretch c'.rest).1⟩ :=
    ⟨w, by rw [hu, hw], by rw [hu', hsplit]⟩
  have hsame : (Quoted.stretch c'.rest).1 = (Quoted.stretch c.rest).1 := by
    rw [hu, hu', hsplit]
  have hempty : (Quoted.stretch c'.rest).2.isEmpty = (Quoted.stretch c.rest).2.isEmpty := by
    rw [hu, hu', hsplit, hw, hb.isEmpty_append]
  rw [hsame] at hafter
  unfold readTemplateText
  dsimp only
  rw [hempty, hsame]
  split
  · exact alike_malformed hafter _ _ _ rfl
  · split
    · refine .token _ hafter _ ?_ rfl
      rfl
    · exact .token _ hafter _ rfl rfl

instance (ch : Char) : Decidable (IsQuote ch) := inferInstanceAs (Decidable (ch = '\'' ∨ ch = '"'))

-- Only the characters of the text are looked at, not all that there are.
instance decidableForallMem {p : Char → Prop} [DecidablePred p] (cs : List Char) : Decidable (∀ ch ∈ cs, p ch) :=
  List.decidableBAll p cs

theorem signs_spare : ∀ s ∈ signs, ∀ ch ∈ s.1.toList, ¬IsQuote ch := by
  decide

theorem readSign_alike (hb : Border v v') (hc : Beside v v' c c') (mode : Mode)
    (afterLineBreak : Bool) (h : (readSign mode afterLineBreak c).after.Within v) :
    (readSign mode afterLineBreak c).Alike v v' (readSign mode afterLineBreak c') := by
  have hmarkers : conflictMarkers.any c'.at? = conflictMarkers.any c.at? := by
    simp (disch := decide) only [conflictMarkers, List.any_cons, List.any_nil, hc.at? hb]
  have hsigns : signs.find? (fun s => c'.at? s.1) = signs.find? fun s => c.at? s.1 :=
    List.find?_congr fun s hs => hc.at? hb (signs_spare s hs)
  have hnext (hat : c.at? "<" ∨ c.at? ">") : Beside v v' c.next c'.next := by
    obtain hat | hat := hat
    · exact hc.skip hb (by decide) hat
    · exact hc.skip hb (by decide) hat
  unfold readSign at h ⊢
  simp (disch := decide) only [hc.at? hb, hmarkers, hsigns]
  by_cases hless : mode = .type ∧ c.at? "<"
  · simp only [if_pos hless]
    exact alike_plainToken (hnext (.inl hless.2)) _
  simp only [if_neg hless] at h ⊢
  by_cases hgreater : mode = .type ∧ c.at? ">"
  · simp only [if_pos hgreater]
    exact alike_plainToken (hnext (.inr hgreater.2)) _
  simp only [if_neg hgreater] at h ⊢
  by_cases hlegacy : c.at? "<!--" ∨ c.at? "-->" ∧ afterLineBreak
  · simp only [if_pos hlegacy] at h ⊢
    exact .passed (hc.skipWhile hb _ h) rfl
  simp only [if_neg hlegacy] at h ⊢
  by_cases hconflict : afterLineBreak ∧ conflictMarkers.any c.at?
  · simp only [if_pos hconflict] at h ⊢
    exact .passed (hc.skipWhile hb _ h) rfl
  simp only [if_neg hconflict] at h ⊢
  cases hfind : signs.find? fun s => c.at? s.1 with
  | some found =>
      have hat : c.at? found.1 := by simpa using List.find?_some hfind
      exact alike_plainToken (hc.skip hb (signs_spare _ (List.mem_of_find?_eq_some hfind)) hat) _
  | none =>
      -- a single character is malformed, which may not be the quote of the border
      obtain ⟨u, hu, hu'⟩ := hc
      rw [hfind] at h
      cases u with
      | cons ch u =>
          simp only [hu, hu', List.cons_append]
          refine alike_malformed ⟨u, ?_, ?_⟩ _ _ _ rfl
          · simp [Cursor.next, hu]
          · simp [Cursor.next, hu']
      | nil =>
          cases hb with
          | ends =>
              simp only [hu, hu', List.append_nil]
              exact alike_plainToken ⟨[], hu, hu'⟩ _
          | quote hq r r' =>
              simp only [hu, List.nil_append] at h
              refine absurd h (not_suffix_of_length_lt ?_)
              simp [malformed, Reading.after, Cursor.next, hu]

theorem readToken_quote {q : Char} (hq : IsQuote q) (hc : c.head? = some q) (mode : Mode)
    (afterLineBreak : Bool) : readToken mode afterLineBreak c = readString q c := by
  obtain ⟨r, hr⟩ := List.head?_eq_some_iff.1 hc
  unfold readToken
  rw [hr]
  obtain rfl | rfl := hq <;> simp [isNameStart]

theorem readToken_alike (hb : Border v v') (hc : Beside v v' c c') (mode : Mode)
    (afterLineBreak : Bool) (h : (readToken mode afterLineBreak c).after.Within v) :
    (readToken mode afterLineBreak c).Alike v v' (readToken mode afterLineBreak c') := by
  have hbeside := hc
  obtain ⟨u, hu, hu'⟩ := hc
  cases u with
  | nil =>
      cases hb with
      | ends =>
          simp only [readToken, hu, hu', List.append_nil]
          exact alike_plainToken hbeside _
      | @quote q hq r r' =>
          -- the string that the border opens would be the token, and end beyond the border
          rw [readToken_quote hq (by rw [Cursor.head?, hu]; rfl)] at h
          have hinside := readString_interior_within q h
          refine absurd (hinside.trans ⟨_, Quoted.interior_append q c.next.rest⟩)
            (not_suffix_of_length_lt ?_)
          simp [Cursor.next, hu]
  | cons ch u =>
      have hhead : c.head? = some ch := by
        rw [Cursor.head?, hu]
        rfl
      unfold readToken at h ⊢
      simp only [hu, hu', List.cons_append, hb.head?_append u] at h ⊢
      by_cases hregex : mode = .regex ∧ ch = '/'
      · simp only [if_pos hregex] at h ⊢
        exact readRegex_alike hb hbeside (hregex.2 ▸ hhead) h
      simp only [if_neg hregex] at h ⊢
      by_cases hword : isNameStart ch ∨ ch = '\\'
      · simp only [if_pos hword] at h ⊢
        exact readWord_alike hb hbeside h
      simp only [if_neg hword] at h ⊢
      by_cases hdigit : ch.isDigit
      · simp only [if_pos hdigit] at h ⊢
        exact readNumber_alike hb hbeside
      simp only [if_neg hdigit] at h ⊢
      by_cases hdot : ch = '.' ∧ ((u ++ v).head?.map Char.isDigit).getD false
      · simp only [if_pos hdot] at h ⊢
        exact readNumber_alike hb hbeside
      simp only [if_neg hdot] at h ⊢
      by_cases hquote : ch = '\'' ∨ ch = '"'
      · simp only [if_pos hquote] at h ⊢
        exact readString_alike hb hbeside ch h
      · simp only [if_neg hquote] at h ⊢
        exact readSign_alike hb hbeside mode afterLineBreak h

theorem readEdge_other {ch : Char} {r : List Char} (hc : c.rest = ch :: r) (htick : ch ≠ '\x60')
    (hdollar : ch = '$' → r.head? ≠ some '\x7b') :
    readEdge c = malformed c.next (.unexpectedCharacter ch) c.pos [] := by
  unfold readEdge
  split
  · rename_i heq
    rw [hc] at heq
    cases heq
    exact absurd rfl htick
  · rename_i heq
    rw [hc] at heq
    cases heq
    exact absurd rfl (hdollar rfl)
  · rename_i heq
    rw [hc] at heq
    cases heq
    rfl
  · rename_i heq
    rw [hc] at heq
    cases heq

theorem readEdge_alike (hb : Border v v') (hc : Beside v v' c c')
    (h : (readEdge c).after.Within v) : (readEdge c).Alike v v' (readEdge c') := by
  have hbeside := hc
  obtain ⟨u, hu, hu'⟩ := hc
  cases u with
  | nil =>
      cases hb with
      | ends =>
          simp only [readEdge, hu, hu', List.append_nil]
          exact alike_plainToken hbeside _
      | @quote q hq r r' =>
          have hne (ch : Char) (h1 : ch ≠ '\'') (h2 : ch ≠ '"') : q ≠ ch := hq.ne h1 h2
          rw [readEdge_other hu (hne _ (by decide) (by decide))
            fun hd => absurd hd (hne _ (by decide) (by decide))] at h
          refine absurd h (not_suffix_of_length_lt ?_)
          simp [malformed, Reading.after, Cursor.next, hu]
  | cons ch u =>
      have hnext : Beside v v' c.next c'.next :=
        ⟨u, by simp [Cursor.next, hu], by simp [Cursor.next, hu']⟩
      by_cases htick : ch = '\x60'
      · subst htick
        simp only [readEdge, hu, hu', List.cons_append]
        exact alike_plainToken hnext _
      by_cases hdollar : ch = '$' ∧ (u ++ v).head? = some '\x7b'
      · obtain ⟨rfl, hbrace⟩ := hdollar
        obtain ⟨r, hr⟩ := List.head?_eq_some_iff.1 hbrace
        obtain ⟨u, rfl, -⟩ := hb.exists_cons hr (by simp [IsQuote])
        simp only [readEdge, hu, hu', List.cons_append]
        exact alike_plainToken ⟨u, by simp [Cursor.next, hu], by simp [Cursor.next, hu']⟩ _
      · rw [readEdge_other hu htick fun hd hbrace => hdollar ⟨hd, hbrace⟩,
          readEdge_other hu' htick fun hd hbrace =>
            hdollar ⟨hd, (hb.head?_append u).symm.trans hbrace⟩]
        exact alike_malformed hnext _ _ _ rfl

/-- Whether a token was read, and not something that is passed over. -/
def Reading.isToken : Reading → Bool
  | .token .. => true
  | .passed .. => false

theorem isToken_endNumber (d : Cursor) (faults : List Fault) : (endNumber d faults).isToken := by
  unfold endNumber
  split <;> rfl

theorem isToken_readExponent (d : Cursor) (faults : List Fault) :
    (readExponent d faults).isToken := by
  unfold readExponent
  dsimp only
  repeat' first | exact isToken_endNumber .. | rfl | split

theorem isToken_readNumber (c : Cursor) : (readNumber c).isToken := by
  have hfraction (d : Cursor) (faults : List Fault) : (readFraction d faults).isToken := by
    unfold readFraction
    split <;> exact isToken_readExponent ..
  have hdecimal : (readDecimal c).isToken := by
    unfold readDecimal
    dsimp only
    repeat' first | exact hfraction .. | rfl | split
  have hradix (radix : Nat) : (readRadix radix c).isToken := by
    unfold readRadix
    dsimp only
    repeat' first | exact isToken_endNumber .. | rfl | split
  unfold readNumber
  repeat' first | exact hradix _ | exact hdecimal | split

theorem isToken_readWord (c : Cursor) : (readWord c).isToken := by
  unfold readWord
  dsimp only
  repeat' first | rfl | split

theorem isToken_readString (quote : Char) (c : Cursor) : (readString quote c).isToken := by
  unfold readString
  dsimp only
  repeat' first | rfl | split

theorem isToken_readRegex (c : Cursor) : (readRegex c).isToken := by
  unfold readRegex
  dsimp only
  repeat' first | rfl | split

/-- A line that begins with a mark is not empty. -/
theorem length_skipLine_lt {s : String} (hs : c.at? s)
    (hline : s.toList.head?.map isLineBreak = some false) :
    (skipLine c).rest.length < c.rest.length := by
  obtain ⟨ch, hch, hbreak⟩ := Option.map_eq_some_iff.1 hline
  obtain ⟨r, hr⟩ := List.head?_eq_some_iff.1 hch
  rw [Cursor.at?, List.isPrefixOf_iff_prefix, hr] at hs
  obtain ⟨rest, hrest⟩ := hs
  have hskip : (skipLine c).rest =
      c.rest.drop (c.rest.takeWhile fun ch => !isLineBreak ch).length := rfl
  rw [hskip, ← hrest]
  simp only [List.cons_append, List.takeWhile_cons, hbreak, Bool.not_false, if_true,
    List.length_cons, List.drop_succ_cons, List.length_drop]
  omega

theorem length_readSign_lt {mode : Mode} {afterLineBreak : Bool} {after : Cursor} {fault : Fault}
    (h : readSign mode afterLineBreak c = .passed after fault) :
    after.rest.length < c.rest.length := by
  have hmarkers : ∀ s ∈ conflictMarkers, s.toList.head?.map isLineBreak = some false := by decide
  unfold readSign at h
  split at h
  · cases h
  split at h
  · cases h
  split at h
  · rename_i hlegacy
    cases h
    obtain hat | ⟨hat, -⟩ := hlegacy
    · exact length_skipLine_lt hat (by decide)
    · exact length_skipLine_lt hat (by decide)
  split at h
  · rename_i hconflict
    cases h
    obtain ⟨s, hs, hat⟩ := List.any_eq_true.1 hconflict.2
    exact length_skipLine_lt hat (hmarkers s hs)
  split at h
  · cases h
  · split at h <;> cases h

theorem length_readToken_lt {mode : Mode} {afterLineBreak : Bool} {after : Cursor} {fault : Fault}
    (h : readToken mode afterLineBreak c = .passed after fault) :
    after.rest.length < c.rest.length := by
  have hnot {r : Reading} (hr : r.isToken) (he : r = .passed after fault) : False := by
    rw [he] at hr
    cases hr
  unfold readToken at h
  split at h
  · cases h
  split at h
  · exact (hnot (isToken_readRegex c) h).elim
  split at h
  · exact (hnot (isToken_readWord c) h).elim
  split at h
  · exact (hnot (isToken_readNumber c) h).elim
  split at h
  · exact (hnot (isToken_readNumber c) h).elim
  split at h
  · exact (hnot (isToken_readString _ c) h).elim
  · exact length_readSign_lt h

/-- Two scans, from places beside each other, that tell the same and end at such places. -/
structure Scanned.Alike (v v' : List Char) (c c' : Cursor) (s s' : Scanned) : Prop where
  token : s'.lexeme.token = s.lexeme.token
  afterLineBreak : s'.lexeme.afterLineBreak = s.lexeme.afterLineBreak
  raw : s'.lexeme.raw = s.lexeme.raw
  value : s'.lexeme.value = s.lexeme.value
  fault : s'.lexeme.fault?.map Fault.complaint = s.lexeme.fault?.map Fault.complaint
  adjacent : s'.lexeme.start = c'.pos ↔ s.lexeme.start = c.pos
  after : Beside v v' s.after s'.after
  faults : complaints s'.faults = complaints s.faults

theorem scanned_alike {b b' : Cursor} (hb : Beside v v' b b') (hbc : b.Reaches c)
    (hbc' : b'.Reaches c') (hc : Beside v v' c c') (hd : Beside v v' d d') (hr : c.Reaches d)
    (afterLineBreak : Bool) {noted noted' : List Fault} (hn : complaints noted' = complaints noted)
    (token : Token) (value : List Char) {fault? fault'? : Option Fault}
    (hf : fault'?.map Fault.complaint = fault?.map Fault.complaint) {faults faults' : List Fault}
    (hfs : complaints faults' = complaints faults) :
    (scanned c afterLineBreak noted token d value fault? faults).Alike v v' b b'
      (scanned c' afterLineBreak noted' token d' value fault'? faults') :=
  ⟨rfl, rfl, hc.upTo hd hr, rfl, hf, hb.pos_eq_iff hc hbc hbc', hd, complaints_append hn hfs⟩

/-- A place between two tokens: whether a line ended before it, and what was noted on the way. -/
structure Spot where
  lineBreak : Bool
  noted : List Fault
  place : Cursor

/-- The place after the blanks and comments that stand at a place. -/
def Spot.pastGap (s : Spot) : Spot :=
  let gap := passGap .blank 0 s.lineBreak s.place.rest s.place.pos
  ⟨gap.lineBreak,
    s.noted ++ (gap.unterminated.map fun pos => ⟨.unterminatedComment, pos, ""⟩).toList, gap.cursor⟩

/-- Blanks, comments and what the reader notes and passes over lead from one place to the other. -/
inductive Approaches (mode : Mode) : Spot → Spot → Prop
  | gap (s : Spot) : Approaches mode s s.pastGap
  | passed {s t : Spot} {after : Cursor} {fault : Fault}
      (here : readToken mode s.pastGap.lineBreak s.pastGap.place = .passed after fault)
      (rest : Approaches mode ⟨s.pastGap.lineBreak, s.pastGap.noted ++ [fault], after⟩ t) :
      Approaches mode s t

section Steps

variable {mode : Mode} {s t : Spot}

theorem scanFrom_token {token : Token} {after : Cursor} {value : List Char} {fault? : Option Fault}
    {faults : List Fault} (fuel : Nat)
    (h : readToken mode s.pastGap.lineBreak s.pastGap.place =
      .token token after value fault? faults) :
    scanFrom mode (fuel + 1) s.lineBreak s.noted s.place =
      scanned s.pastGap.place s.pastGap.lineBreak s.pastGap.noted token after value fault? faults := by
  unfold Spot.pastGap at h ⊢
  rw [scanFrom]
  dsimp only at h ⊢
  rw [h]
  cases (passGap .blank 0 s.lineBreak s.place.rest s.place.pos).unterminated <;> simp

theorem scanFrom_passed {after : Cursor} {fault : Fault} (fuel : Nat)
    (h : readToken mode s.pastGap.lineBreak s.pastGap.place = .passed after fault) :
    scanFrom mode (fuel + 1) s.lineBreak s.noted s.place =
      scanFrom mode fuel s.pastGap.lineBreak (s.pastGap.noted ++ [fault]) after := by
  unfold Spot.pastGap at h ⊢
  rw [scanFrom]
  dsimp only at h ⊢
  rw [h]
  cases (passGap .blank 0 s.lineBreak s.place.rest s.place.pos).unterminated <;> simp

theorem reaches_pastGap (s : Spot) : s.place.Reaches s.pastGap.place :=
  passGap_reaches .blank 0 s.lineBreak s.place.rest s.place.pos

theorem Approaches.reaches (h : Approaches mode s t) : s.place.Reaches t.place := by
  induction h with
  | gap s => exact reaches_pastGap s
  | @passed s t after fault here rest ih =>
      have hread := readToken_from mode s.pastGap.lineBreak s.pastGap.place
      rw [here] at hread
      exact (reaches_pastGap s).trans (hread.reaches.trans ih)

theorem length_lt_of_passed {after : Cursor} {fault : Fault}
    (h : readToken mode s.pastGap.lineBreak s.pastGap.place = .passed after fault) :
    after.rest.length < s.place.rest.length :=
  Nat.lt_of_lt_of_le (length_readToken_lt h) (reaches_pastGap s).length_le

/-- The next token stands at some place that the text leads to. -/
theorem exists_approaches (mode : Mode) (s : Spot) :
    ∃ t token after value fault? faults, Approaches mode s t ∧
      readToken mode t.lineBreak t.place = .token token after value fault? faults := by
  induction hn : s.place.rest.length using Nat.strong_induction_on generalizing s with
  | _ n ih =>
      cases hr : readToken mode s.pastGap.lineBreak s.pastGap.place with
      | token token after value fault? faults =>
          exact ⟨s.pastGap, token, after, value, fault?, faults, .gap s, hr⟩
      | passed after fault =>
          obtain ⟨t, token, after', value, fault?, faults, happroaches, ht⟩ :=
            ih _ (hn ▸ length_lt_of_passed hr)
              ⟨s.pastGap.lineBreak, s.pastGap.noted ++ [fault], after⟩ rfl
          exact ⟨t, token, after', value, fault?, faults, .passed hr happroaches, ht⟩

theorem Approaches.scanFrom_eq (h : Approaches mode s t) {fuel : Nat}
    (hf : s.place.rest.length < fuel) {token : Token} {after : Cursor} {value : List Char}
    {fault? : Option Fault} {faults : List Fault}
    (ht : readToken mode t.lineBreak t.place = .token token after value fault? faults) :
    scanFrom mode fuel s.lineBreak s.noted s.place =
      scanned t.place t.lineBreak t.noted token after value fault? faults := by
  induction h generalizing fuel with
  | gap s =>
      obtain ⟨fuel, rfl⟩ : ∃ n, fuel = n + 1 := ⟨fuel - 1, by omega⟩
      exact scanFrom_token fuel ht
  | passed here rest ih =>
      obtain ⟨fuel, rfl⟩ : ∃ n, fuel = n + 1 := ⟨fuel - 1, by omega⟩
      have hlt := length_lt_of_passed here
      rw [scanFrom_passed fuel here]
      exact ih (by dsimp only; omega) ht

end Steps

/-- Two places between tokens that are beside each other. -/
structure Spot.Alike (v v' : List Char) (s s' : Spot) : Prop where
  lineBreak : s'.lineBreak = s.lineBreak
  noted : complaints s'.noted = complaints s.noted
  place : Beside v v' s.place s'.place

theorem pastGap_alike {s s' : Spot} (hb : Border v v') (hs : s.Alike v v' s')
    (hw : s.pastGap.place.Within v) : s.pastGap.Alike v v' s'.pastGap := by
  obtain ⟨hline, hnoted, u, hu, hu'⟩ := hs
  unfold Spot.pastGap at hw ⊢
  dsimp only at hw ⊢
  rw [hu] at hw ⊢
  obtain ⟨hplace, hbreak, hunterminated⟩ :=
    passGap_border hb .blank 0 0 s.lineBreak u s.place.pos s'.place.pos hw
  rw [hu', hline]
  refine ⟨hbreak, complaints_append hnoted ?_, hplace⟩
  generalize (passGap .blank 0 s.lineBreak (u ++ v) s.place.pos).unterminated = opened,
    (passGap .blank 0 s.lineBreak (u ++ v') s'.place.pos).unterminated = opened' at hunterminated
  cases opened <;> cases opened'
  · rfl
  · cases hunterminated
  · cases hunterminated
  · rfl

/-- What leads to a place before the border leads to a place beside it. -/
theorem Approaches.alike {mode : Mode} {s s' t : Spot} (h : Approaches mode s t) (hb : Border v v')
    (hs : s.Alike v v' s') (hw : t.place.Within v) :
    ∃ t', Approaches mode s' t' ∧ t.Alike v v' t' := by
  induction h generalizing s' with
  | gap s => exact ⟨s'.pastGap, .gap s', pastGap_alike hb hs hw⟩
  | @passed s t after fault here rest ih =>
      have hread := readToken_from mode s.pastGap.lineBreak s.pastGap.place
      rw [here] at hread
      have hafter : after.Within v := hw.of_reaches rest.reaches
      obtain ⟨hline, hnoted, hplace⟩ := pastGap_alike hb hs (hafter.of_reaches hread.reaches)
      have halike := readToken_alike hb hplace mode s.pastGap.lineBreak (by rw [here]; exact hafter)
      rw [here] at halike
      generalize hr : readToken mode s.pastGap.lineBreak s'.pastGap.place = r at halike
      cases halike with
      | passed hbeside hfault =>
          rw [← hline] at hr
          have hnext : Spot.Alike v v' ⟨s.pastGap.lineBreak, s.pastGap.noted ++ [fault], after⟩
              ⟨s'.pastGap.lineBreak, s'.pastGap.noted ++ [_], _⟩ :=
            ⟨hline, complaints_append hnoted (complaints_singleton hfault), hbeside⟩
          obtain ⟨t', happroaches, ht⟩ := ih hnext hw
          exact ⟨t', .passed hr happroaches, ht⟩

theorem scanFrom_alike (hb : Border v v') (mode : Mode) (first : Bool) (hc : Beside v v' c c')
    {fuel fuel' : Nat} (hf : c.rest.length < fuel) (hf' : c'.rest.length < fuel')
    (h : (scanFrom mode fuel first [] c).after.Within v) :
    (scanFrom mode fuel first [] c).Alike v v' c c' (scanFrom mode fuel' first [] c') := by
  obtain ⟨t, token, after, value, fault?, faults, happroaches, ht⟩ :=
    exists_approaches mode ⟨first, [], c⟩
  rw [happroaches.scanFrom_eq hf ht] at h ⊢
  have hread := readToken_from mode t.lineBreak t.place
  rw [ht] at hread
  have hafter : after.Within v := h
  have hspot : Spot.Alike v v' ⟨first, [], c⟩ ⟨first, [], c'⟩ := ⟨rfl, rfl, hc⟩
  obtain ⟨t', happroaches', hline, hnoted, hplace⟩ :=
    happroaches.alike hb hspot (hafter.of_reaches hread.reaches)
  have halike := readToken_alike hb hplace mode t.lineBreak (by rw [ht]; exact hafter)
  rw [ht] at halike
  generalize hr : readToken mode t.lineBreak t'.place = r at halike
  cases halike with
  | token _ hbeside _ hfault hfaults =>
      rw [← hline] at hr
      rw [happroaches'.scanFrom_eq hf' hr, hline]
      exact scanned_alike hc happroaches.reaches happroaches'.reaches hplace hbeside hread.reaches _
        hnoted _ _ hfault hfaults

/-- What a reading at a place tells where nothing is passed over before it. -/
def Reading.scannedAt (c : Cursor) : Reading → Scanned
  | .token found after value fault? faults => scanned c false [] found after value fault? faults
  | .passed after fault => scanned c false [fault] .finish after [] none []

theorem scannedAt_after (c : Cursor) (r : Reading) : (r.scannedAt c).after = r.after := by
  cases r <;> rfl

theorem scan_templateText (first : Bool) (c : Cursor) :
    scan .templateText first c = (readTemplateText c).scannedAt c := by
  unfold scan
  cases readTemplateText c <;> rfl

theorem scan_templateEdge (first : Bool) (c : Cursor) :
    scan .templateEdge first c = (readEdge c).scannedAt c := by
  unfold scan
  cases readEdge c <;> rfl

theorem scannedAt_alike {r r' : Reading} (h : r.Alike v v' r') (hc : Beside v v' c c')
    (hr : c.Reaches r.after) : (r.scannedAt c).Alike v v' c c' (r'.scannedAt c') := by
  cases h with
  | token _ hbeside _ hfault hfaults =>
      exact scanned_alike hc (.refl c) (.refl c') hc hbeside hr _ rfl _ _ hfault hfaults
  | passed hbeside hfault =>
      exact scanned_alike hc (.refl c) (.refl c') hc hbeside hr _ (complaints_singleton hfault) _ _
        rfl rfl

/-- A scan that ends before the border tells the same whatever comes after the border. -/
theorem scan_alike (hb : Border v v') (mode : Mode) (first : Bool) (hc : Beside v v' c c')
    (h : (scan mode first c).after.Within v) :
    (scan mode first c).Alike v v' c c' (scan mode first c') := by
  cases mode with
  | templateText =>
      simp only [scan_templateText, scannedAt_after] at h ⊢
      exact scannedAt_alike (readTemplateText_alike hb hc h) hc (readTemplateText_from c).reaches
  | templateEdge =>
      simp only [scan_templateEdge, scannedAt_after] at h ⊢
      exact scannedAt_alike (readEdge_alike hb hc h) hc (readEdge_from c).reaches
  | _ =>
      unfold scan at h ⊢
      dsimp only at h ⊢
      rw [hc.at? hb (by decide)]
      by_cases hshebang : first ∧ c.at? "#!"
      · rw [if_pos hshebang] at h ⊢
        rw [if_pos hshebang]
        exact scanned_alike hc (.refl c) (.refl c') hc (hc.skipWhile hb _ h) (reaches_skipWhile _ c) _
          rfl _ _ rfl rfl
      · rw [if_neg hshebang] at h ⊢
        rw [if_neg hshebang]
        exact scanFrom_alike hb _ first hc (Nat.lt_succ_self _) (Nat.lt_succ_self _) h

end Lexer

end WebModules.Script
