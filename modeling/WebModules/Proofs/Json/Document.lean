import Mathlib.Data.List.Forall2
import WebModules.Proofs.Json.Fields
import WebModules.Proofs.Json.Scalar

/-!
Documents are read as they are printed.
-/

namespace WebModules.Json

open Input

variable {α : Type}

-- The equations of the reader are derived here once, so that the lemmas below do not wait for each other
-- to derive them.
section

attribute [local simp] readValue

end

/-- The integers that a document can hold. -/
def Sized (v : Int) : Prop := -(2 ^ 63) ≤ v ∧ v ≤ maxNatural

/-- A document without fractions that is nested no deeper than can be read, and whose fields are
distinct. -/
inductive Lasting : Nat → Json → Prop
  | null (depth : Nat) : Lasting depth .null
  | bool (depth : Nat) (b : Bool) : Lasting depth (.bool b)
  | integer (depth : Nat) {v : Int} (sized : Sized v) : Lasting depth (.number (.integer v))
  | string (depth : Nat) (s : String) : Lasting depth (.string s)
  | array {depth : Nat} {items : List Json} (lasting : ∀ j ∈ items, Lasting depth j) :
      Lasting (depth + 1) (.array items)
  | object {depth : Nat} {fields : List (String × Json)} (names : (fields.map Prod.fst).Nodup)
      (lasting : ∀ f ∈ fields, Lasting depth f.2) : Lasting (depth + 1) (.object fields)

theorem lasting_empty : Lasting maxDepth (.object []) := .object (by simp) (by simp)

/-! Blanks -/

theorem skipBlanks_blanks {blanks : List Char} (hb : ∀ c ∈ blanks, isBlank c) {c : Char}
    (hc : isBlank c = false) (rest : List Char) (pos : Nat) :
    skipBlanks ⟨blanks ++ c :: rest, pos⟩ = ⟨c :: rest, pos + blanks.length⟩ := by
  have htake : (blanks ++ c :: rest).takeWhile isBlank = blanks := by
    rw [List.takeWhile_append_of_pos hb, List.takeWhile_cons_of_neg (by simp [hc]), List.append_nil]
  simp [skipBlanks, skip, htake]

theorem skipBlanks_cons {c : Char} (hc : isBlank c = false) (rest : List Char) (pos : Nat) :
    skipBlanks ⟨c :: rest, pos⟩ = ⟨c :: rest, pos⟩ := by
  simp [skipBlanks, skip, hc]

/-- The start of a line within brackets. -/
def line (depth : Nat) : List Char := '\n' :: (indent depth).toList

theorem blank_of_mem_line {depth : Nat} {c : Char} (h : c ∈ line depth) : isBlank c := by
  rcases List.mem_cons.1 h with rfl | h
  · rfl
  · rw [indent, String.toList_ofList] at h
    rw [List.eq_of_mem_replicate h]
    rfl

/-- A text that can stand at the start of an item. -/
def Starts (text : List Char) : Prop := ∃ c r, text = c :: r ∧ isBlank c = false ∧ c ≠ ']'

theorem skipBlanks_line {text : List Char} (h : Starts text) (depth : Nat) (rest : List Char) (pos : Nat) :
    skipBlanks ⟨line depth ++ (text ++ rest), pos⟩ = ⟨text ++ rest, pos + (line depth).length⟩ := by
  obtain ⟨c, r, rfl, hc, -⟩ := h
  exact skipBlanks_blanks (fun _ => blank_of_mem_line) hc (r ++ rest) pos

/-! Arrays -/

/-- The items after the first, and the end of the brackets. -/
def later (depth : Nat) (closing : Char) (texts : List (List Char)) : List Char :=
  texts.flatMap (fun text => ',' :: line (depth + 1) ++ text) ++ line depth ++ [closing]

theorem later_cons (depth : Nat) (closing : Char) (text : List Char) (texts : List (List Char)) :
    later depth closing (text :: texts) = ',' :: (line (depth + 1) ++ (text ++ later depth closing texts)) := by
  simp [later]

theorem ends_later (depth : Nat) (closing : Char) (texts : List (List Char)) (rest : List Char) :
    Ends (later depth closing texts ++ rest) := by
  cases texts with
  | nil => exact ⟨'\n', _, rfl, .inr rfl⟩
  | cons text texts => exact ⟨',', _, rfl, .inl rfl⟩

theorem intercalate_cons (separator text : List Char) (texts : List (List Char)) :
    separator.intercalate (text :: texts) = text ++ texts.flatMap (separator ++ ·) := by
  induction texts generalizing text with
  | nil => simp
  | cons next texts ih => simp [List.intercalate_cons_cons, ih next]

/-- Brackets around nothing are empty, and each item between others stands on a line of its own. -/
theorem toList_bracketed {opening closing : String} {o c : Char} (ho : opening.toList = [o])
    (hc : closing.toList = [c]) (depth : Nat) (texts : List String) :
    (bracketed depth opening closing texts).toList =
      match texts with
      | [] => [o, c]
      | text :: texts =>
        o :: (line (depth + 1) ++ (text.toList ++ later depth c (texts.map String.toList))) := by
  have hseparator : (",\n" : String).toList = [',', '\n'] := rfl
  cases texts with
  | nil => simp [bracketed, ho, hc]
  | cons text texts =>
      simp only [bracketed, List.isEmpty_cons, Bool.false_eq_true, if_false, String.toList_append,
        String.toList_intercalate, List.map_cons, intercalate_cons, hseparator]
      simp [later, line, List.flatMap_map, ho, hc]

variable {read : Input → Except Failure (Json × Input)}

/-- What is read of an item, and then of the items after it. -/
def consItems (read : Input → Except Failure (Json × Input)) (fuel : Nat) (item : Json × Input) :
    Except Failure (List Json × Input) :=
  readItems read fuel false item.2 >>= fun items => pure (item.1 :: items.1, items.2)

theorem readItems_end (depth fuel : Nat) (rest : List Char) (pos : Nat) :
    readItems read (fuel + 1) false ⟨later depth ']' [] ++ rest, pos⟩ =
      .ok ([], ⟨rest, pos + (line depth).length + 1⟩) := by
  have hblanks : skipBlanks ⟨later depth ']' [] ++ rest, pos⟩ =
      ⟨']' :: rest, pos + (line depth).length⟩ := by
    simpa [later] using skipBlanks_blanks (fun _ => blank_of_mem_line) (c := ']') rfl rest pos
  rw [readItems, hblanks]
  rfl

variable (read) in
theorem readItems_next (depth fuel : Nat) {text : List Char} (hs : Starts text) (texts : List (List Char))
    (rest : List Char) (pos : Nat) : ∃ next,
    readItems read (fuel + 1) false ⟨later depth ']' (text :: texts) ++ rest, pos⟩ =
      read ⟨text ++ (later depth ']' texts ++ rest), next⟩ >>= consItems read fuel := by
  have hline := skipBlanks_line hs (depth + 1) (later depth ']' texts ++ rest) (pos + (',' : Char).utf8Size)
  refine ⟨pos + (',' : Char).utf8Size + (line (depth + 1)).length, ?_⟩
  rw [later_cons, List.cons_append, List.append_assoc, List.append_assoc, readItems, skipBlanks_cons rfl]
  obtain ⟨c, r, rfl, hc, hclosing⟩ := hs
  simp only [List.cons_append] at hline
  simp [Input.next, hline, hclosing]
  rfl

theorem readItems_first (depth fuel : Nat) {text : List Char} (hs : Starts text) (rest : List Char) (pos : Nat) :
    readItems read (fuel + 1) true ⟨line depth ++ (text ++ rest), pos⟩ =
      read ⟨text ++ rest, pos + (line depth).length⟩ >>= consItems read fuel := by
  rw [readItems, skipBlanks_line hs]
  obtain ⟨c, r, rfl, hc, hclosing⟩ := hs
  simp only [List.cons_append, if_true]
  rfl

theorem readItems_later (depth : Nat) {texts : List (List Char)} {items : List Json}
    (h : List.Forall₂ (fun text item => Starts text ∧ Reads read text item) texts items)
    (rest : List Char) (fuel : Nat) (hf : texts.length < fuel) (pos : Nat) :
    ∃ last, readItems read fuel false ⟨later depth ']' texts ++ rest, pos⟩ = .ok (items, ⟨rest, last⟩) := by
  induction h generalizing fuel pos with
  | nil =>
      obtain ⟨fuel, rfl⟩ := Nat.exists_eq_add_of_lt hf
      exact ⟨_, readItems_end depth _ rest pos⟩
  | @cons text item texts items head tail ih =>
      obtain ⟨hstarts, hread⟩ := head
      obtain ⟨fuel, rfl⟩ : ∃ n, fuel = n + 1 := ⟨fuel - 1, by omega⟩
      obtain ⟨next, hnext⟩ := readItems_next read depth fuel hstarts texts rest pos
      obtain ⟨middle, hmiddle⟩ := hread (later depth ']' texts ++ rest) next (ends_later depth ']' texts rest)
      obtain ⟨last, hlast⟩ := ih fuel (by simpa using hf) middle
      refine ⟨last, ?_⟩
      rw [hnext, hmiddle]
      simp [consItems, bind, Except.bind, hlast, pure, Except.pure]

theorem readItems_bracketed (depth : Nat) {text : List Char} {item : Json} {texts : List (List Char)}
    {items : List Json} (hs : Starts text) (hr : Reads read text item)
    (h : List.Forall₂ (fun text item => Starts text ∧ Reads read text item) texts items)
    (rest : List Char) (fuel : Nat) (hf : texts.length + 1 < fuel) (pos : Nat) :
    ∃ last, readItems read fuel true
      ⟨line (depth + 1) ++ (text ++ (later depth ']' texts ++ rest)), pos⟩ =
        .ok (item :: items, ⟨rest, last⟩) := by
  obtain ⟨fuel, rfl⟩ : ∃ n, fuel = n + 1 := ⟨fuel - 1, by omega⟩
  obtain ⟨middle, hmiddle⟩ := hr (later depth ']' texts ++ rest)
    (pos + (line (depth + 1)).length) (ends_later depth ']' texts rest)
  obtain ⟨last, hlast⟩ := readItems_later depth h rest fuel (by omega) middle
  refine ⟨last, ?_⟩
  rw [readItems_first _ _ hs, hmiddle]
  simp [consItems, bind, Except.bind, hlast, pure, Except.pure]

/-! Objects -/

/-- The text of a field, whose value has the given text. -/
def fieldText (name : String) (text : List Char) : List Char :=
  (quoted name).toList ++ ':' :: ' ' :: text

theorem toList_quoted (s : String) :
    (quoted s).toList = '"' :: (s.toList.flatMap escapedChar ++ ['"']) := by
  simp [quoted]

theorem fieldText_eq_cons (name : String) (text : List Char) : ∃ r, fieldText name text = '"' :: r :=
  ⟨_, by rw [fieldText, toList_quoted, List.cons_append]⟩

theorem starts_fieldText (name : String) (text : List Char) : Starts (fieldText name text) := by
  obtain ⟨r, hr⟩ := fieldText_eq_cons name text
  exact ⟨'"', r, hr, rfl, by decide⟩

theorem readField (name : String) (text rest : List Char) (pos : Nat) : ∃ named last,
    readText false ⟨fieldText name text ++ rest, pos⟩ = .ok (name, named) ∧
      readColon named = .ok ⟨' ' :: text ++ rest, last⟩ := by
  obtain ⟨middle, hname⟩ := readText_quoted name (':' :: ' ' :: (text ++ rest)) pos
  refine ⟨_, middle + (':' : Char).utf8Size, by simpa [fieldText] using hname, ?_⟩
  rw [readColon, skipBlanks_cons rfl]
  rfl

variable {value : String → Input → Except Failure (Json × Input)}

/-- A text that is read as a field. -/
def ReadsField (value : String → Input → Except Failure (Json × Input)) (text : List Char)
    (field : String × Json) : Prop :=
  ∃ inner, text = fieldText field.1 inner ∧ Reads (value field.1) (' ' :: inner) field.2

/-- What is read of a field whose name is known, and then of the fields after it. -/
def consFields (value : String → Input → Except Failure (Json × Input)) (fuel : Nat) (name : String)
    (found : Json × Input) : Except Failure (List (String × Json) × Input) :=
  readFields false value fuel false found.2 >>= fun fields => pure ((name, found.1) :: fields.1, fields.2)

theorem readFields_end (depth fuel : Nat) (rest : List Char) (pos : Nat) :
    readFields false value (fuel + 1) false ⟨later depth '}' [] ++ rest, pos⟩ =
      .ok ([], ⟨rest, pos + (line depth).length + 1⟩) := by
  have hblanks : skipBlanks ⟨later depth '}' [] ++ rest, pos⟩ =
      ⟨'}' :: rest, pos + (line depth).length⟩ := by
    simpa [later] using skipBlanks_blanks (fun _ => blank_of_mem_line) (c := '}') rfl rest pos
  rw [readFields, hblanks]
  rfl

variable (value) in
theorem readFields_next (depth fuel : Nat) (name : String) (inner : List Char) (texts : List (List Char))
    (rest : List Char) (pos : Nat) : ∃ next,
    readFields false value (fuel + 1) false ⟨later depth '}' (fieldText name inner :: texts) ++ rest, pos⟩ =
      value name ⟨' ' :: inner ++ (later depth '}' texts ++ rest), next⟩ >>= consFields value fuel name := by
  obtain ⟨named, next, hname, hcolon⟩ := readField name inner (later depth '}' texts ++ rest)
    (pos + (',' : Char).utf8Size + (line (depth + 1)).length)
  have hline := skipBlanks_line (starts_fieldText name inner) (depth + 1) (later depth '}' texts ++ rest)
    (pos + (',' : Char).utf8Size)
  refine ⟨next, ?_⟩
  rw [later_cons, List.cons_append, List.append_assoc, List.append_assoc, readFields, skipBlanks_cons rfl]
  obtain ⟨r, hr⟩ := fieldText_eq_cons name inner
  rw [hr, List.cons_append] at hline hname ⊢
  simp only [Input.next, hline, hname, hcolon, bind, Except.bind]
  rfl

variable (value) in
theorem readFields_first (depth fuel : Nat) (name : String) (inner rest : List Char) (pos : Nat) : ∃ next,
    readFields false value (fuel + 1) true ⟨line depth ++ (fieldText name inner ++ rest), pos⟩ =
      value name ⟨' ' :: inner ++ rest, next⟩ >>= consFields value fuel name := by
  obtain ⟨named, next, hname, hcolon⟩ := readField name inner rest (pos + (line depth).length)
  refine ⟨next, ?_⟩
  rw [readFields, skipBlanks_line (starts_fieldText name inner)]
  obtain ⟨r, hr⟩ := fieldText_eq_cons name inner
  rw [hr, List.cons_append] at hname ⊢
  simp only [hname, hcolon, bind, Except.bind]
  rfl

theorem readFields_later (depth : Nat) {texts : List (List Char)} {fields : List (String × Json)}
    (h : List.Forall₂ (ReadsField value) texts fields) (rest : List Char) (fuel : Nat)
    (hf : texts.length < fuel) (pos : Nat) :
    ∃ last, readFields false value fuel false ⟨later depth '}' texts ++ rest, pos⟩ =
      .ok (fields, ⟨rest, last⟩) := by
  induction h generalizing fuel pos with
  | nil =>
      obtain ⟨fuel, rfl⟩ := Nat.exists_eq_add_of_lt hf
      exact ⟨_, readFields_end depth _ rest pos⟩
  | @cons text field texts fields head tail ih =>
      obtain ⟨inner, rfl, hread⟩ := head
      obtain ⟨fuel, rfl⟩ : ∃ n, fuel = n + 1 := ⟨fuel - 1, by omega⟩
      obtain ⟨next, hnext⟩ := readFields_next value depth fuel field.1 inner texts rest pos
      obtain ⟨middle, hmiddle⟩ := hread (later depth '}' texts ++ rest) next (ends_later depth '}' texts rest)
      obtain ⟨last, hlast⟩ := ih fuel (by simpa using hf) middle
      refine ⟨last, ?_⟩
      rw [hnext, hmiddle]
      simp [consFields, bind, Except.bind, hlast, pure, Except.pure]

theorem readFields_bracketed (depth : Nat) {text : List Char} {field : String × Json}
    {texts : List (List Char)} {fields : List (String × Json)} (hr : ReadsField value text field)
    (h : List.Forall₂ (ReadsField value) texts fields) (rest : List Char) (fuel : Nat)
    (hf : texts.length + 1 < fuel) (pos : Nat) :
    ∃ last, readFields false value fuel true
      ⟨line (depth + 1) ++ (text ++ (later depth '}' texts ++ rest)), pos⟩ =
        .ok (field :: fields, ⟨rest, last⟩) := by
  obtain ⟨fuel, rfl⟩ : ∃ n, fuel = n + 1 := ⟨fuel - 1, by omega⟩
  obtain ⟨inner, rfl, hread⟩ := hr
  obtain ⟨next, hnext⟩ := readFields_first value (depth + 1) fuel field.1 inner
    (later depth '}' texts ++ rest) pos
  obtain ⟨middle, hmiddle⟩ := hread (later depth '}' texts ++ rest) next (ends_later depth '}' texts rest)
  obtain ⟨last, hlast⟩ := readFields_later depth h rest fuel (by omega) middle
  refine ⟨last, ?_⟩
  rw [hnext, hmiddle]
  simp [consFields, bind, Except.bind, hlast, pure, Except.pure]

/-! Values -/

theorem readValue_array (depth : Nat) (rest : List Char) (pos : Nat) :
    readValue false (depth + 1) ⟨'[' :: rest, pos⟩ = (do
      let (items, after) ← readItems (readValue false depth) (rest.length + 2) true ⟨rest, pos + 1⟩
      return (.array items, after)) := by
  rw [readValue]
  rfl

theorem readValue_object (depth : Nat) (rest : List Char) (pos : Nat) :
    readValue false (depth + 1) ⟨'\x7b' :: rest, pos⟩ = (do
      let (fields, after) ←
        readFields false (fun _ => readValue false depth) (rest.length + 2) true ⟨rest, pos + 1⟩
      return (.object fields, after)) := by
  rw [readValue]
  rfl

/-- Blanks before a value do not matter. -/
theorem readValue_congr {i j : Input} (h : i.skipBlanks = j.skipBlanks) (depth : Nat) :
    readValue false depth i = readValue false depth j := by
  rw [readValue.eq_def, readValue.eq_def false depth j]
  dsimp only
  rw [h]

theorem readValue_blank (depth : Nat) {text : List Char} (h : Starts text) (rest : List Char) (pos : Nat) :
    readValue false depth ⟨' ' :: (text ++ rest), pos⟩ = readValue false depth ⟨text ++ rest, pos + 1⟩ := by
  obtain ⟨c, r, rfl, hc, -⟩ := h
  have hspace : ∀ b ∈ [' '], isBlank b := by simp [isBlank]
  have hblank : skipBlanks ⟨' ' :: (c :: r ++ rest), pos⟩ = ⟨c :: r ++ rest, pos + 1⟩ :=
    skipBlanks_blanks hspace hc (r ++ rest) pos
  have hplain : skipBlanks ⟨c :: r ++ rest, pos + 1⟩ = ⟨c :: r ++ rest, pos + 1⟩ := skipBlanks_cons hc _ _
  exact readValue_congr (hblank.trans hplain.symm) depth

theorem Reads.after_blank {depth : Nat} {text : List Char} {j : Json}
    (h : Reads (readValue false depth) text j) (hs : Starts text) :
    Reads (readValue false depth) (' ' :: text) j := by
  intro rest pos hr
  rw [List.cons_append, readValue_blank depth hs]
  exact h rest (pos + 1) hr

theorem length_le_later (depth : Nat) (closing : Char) (texts : List (List Char)) :
    texts.length ≤ (later depth closing texts).length := by
  induction texts with
  | nil => exact Nat.zero_le _
  | cons text texts ih =>
      rw [later_cons]
      simp only [List.length_cons, List.length_append]
      omega

theorem prettyItems_eq (depth : Nat) (items : List Json) :
    prettyItems depth items = items.map (prettyAt depth) := by
  induction items with
  | nil => rfl
  | cons item items ih => rw [prettyItems, ih, List.map_cons]

theorem prettyFields_eq (depth : Nat) (fields : List (String × Json)) :
    prettyFields depth fields = fields.map fun f => quoted f.1 ++ ": " ++ prettyAt depth f.2 := by
  induction fields with
  | nil => rfl
  | cons field fields ih =>
      obtain ⟨name, value⟩ := field
      rw [prettyFields, ih, List.map_cons]

theorem toList_field (name text : String) :
    (quoted name ++ ": " ++ text).toList = fieldText name text.toList := by
  simp [fieldText]

/-- A text that is read as a value of some depth. -/
def ReadsValue (depth : Nat) (text : List Char) (j : Json) : Prop :=
  Starts text ∧ Reads (readValue false depth) text j

theorem readsValue_array {depth : Nat} {items : List Json} (k : Nat)
    (h : ∀ j ∈ items, ReadsValue depth (prettyAt (k + 1) j).toList j) :
    ReadsValue (depth + 1) (prettyAt k (.array items)).toList (.array items) := by
  rw [prettyAt, prettyItems_eq, toList_bracketed (o := '[') (c := ']') rfl rfl]
  cases items with
  | nil =>
      refine ⟨⟨'[', [']'], rfl, rfl, by decide⟩, fun rest pos _ => ⟨pos + 1 + 1, ?_⟩⟩
      exact readValue_array depth (']' :: rest) pos
  | cons item items =>
      obtain ⟨hs, hr⟩ := h item List.mem_cons_self
      have hlater : List.Forall₂ (ReadsValue depth)
          ((items.map (prettyAt (k + 1))).map String.toList) items := by
        rw [List.map_map, List.forall₂_map_left_iff, List.forall₂_same]
        exact fun j hj => h j (List.mem_cons_of_mem _ hj)
      have hlength := length_le_later k ']' ((items.map (prettyAt (k + 1))).map String.toList)
      refine ⟨⟨'[', _, rfl, rfl, by decide⟩, fun rest pos _ => ?_⟩
      obtain ⟨last, hlast⟩ := readItems_bracketed k hs hr hlater rest
        ((line (k + 1) ++ ((prettyAt (k + 1) item).toList ++
          (later k ']' ((items.map (prettyAt (k + 1))).map String.toList) ++ rest))).length + 2)
        (by simp only [List.length_append]; omega) (pos + 1)
      refine ⟨last, ?_⟩
      simp only [List.map_cons, List.cons_append, List.append_assoc]
      rw [readValue_array, hlast]
      rfl

theorem readsValue_object {depth : Nat} {fields : List (String × Json)} (k : Nat)
    (h : ∀ f ∈ fields, ReadsValue depth (prettyAt (k + 1) f.2).toList f.2) :
    ReadsValue (depth + 1) (prettyAt k (.object fields)).toList (.object fields) := by
  rw [prettyAt, prettyFields_eq, toList_bracketed (o := '\x7b') (c := '\x7d') rfl rfl]
  have hfield (f : String × Json) (hf : f ∈ fields) : ReadsField (fun _ => readValue false depth)
      (quoted f.1 ++ ": " ++ prettyAt (k + 1) f.2).toList f :=
    ⟨_, toList_field _ _, (h f hf).2.after_blank (h f hf).1⟩
  cases fields with
  | nil =>
      refine ⟨⟨'\x7b', ['\x7d'], rfl, rfl, by decide⟩, fun rest pos _ => ⟨pos + 1 + 1, ?_⟩⟩
      exact readValue_object depth ('\x7d' :: rest) pos
  | cons field fields =>
      have hlater : List.Forall₂ (ReadsField fun _ => readValue false depth)
          ((fields.map fun f => quoted f.1 ++ ": " ++ prettyAt (k + 1) f.2).map String.toList)
          fields := by
        rw [List.map_map, List.forall₂_map_left_iff, List.forall₂_same]
        exact fun f hf => hfield f (List.mem_cons_of_mem _ hf)
      have hlength := length_le_later k '\x7d'
        ((fields.map fun f => quoted f.1 ++ ": " ++ prettyAt (k + 1) f.2).map String.toList)
      refine ⟨⟨'\x7b', _, rfl, rfl, by decide⟩, fun rest pos _ => ?_⟩
      obtain ⟨last, hlast⟩ := readFields_bracketed k (hfield field List.mem_cons_self) hlater rest
        ((line (k + 1) ++ ((quoted field.1 ++ ": " ++ prettyAt (k + 1) field.2).toList ++
          (later k '\x7d' ((fields.map fun f => quoted f.1 ++ ": " ++ prettyAt (k + 1) f.2).map
            String.toList) ++ rest))).length + 2)
        (by simp only [List.length_append, List.length_map] at hlength ⊢; omega) (pos + 1)
      refine ⟨last, ?_⟩
      simp only [List.map_cons, List.cons_append, List.append_assoc]
      rw [readValue_object, hlast]
      rfl

theorem readsValue_string (depth k : Nat) (s : String) :
    ReadsValue depth (prettyAt k (.string s)).toList (.string s) := by
  rw [prettyAt, toList_quoted]
  refine ⟨⟨'"', _, rfl, rfl, by decide⟩, fun rest pos _ => ?_⟩
  obtain ⟨last, hlast⟩ := readText_quoted s rest pos
  have hvalue (cs : List Char) : readValue false depth ⟨'"' :: cs, pos⟩ =
      readText false ⟨'"' :: cs, pos⟩ >>= fun found => pure (.string found.1, found.2) := by
    rw [readValue.eq_def]
    rfl
  refine ⟨last, ?_⟩
  rw [toList_quoted] at hlast
  rw [List.cons_append, hvalue, ← List.cons_append, hlast]
  rfl

theorem digit_ne {d c : Char} (hd : d.isDigit) (hc : c.isDigit = false) : d ≠ c := by
  rintro rfl
  rw [hd] at hc
  contradiction

theorem not_isBlank_of_digit {d : Char} (hd : d.isDigit) : isBlank d = false := by
  simp [isBlank, digit_ne hd (c := ' ') rfl, digit_ne hd (c := '\n') rfl, digit_ne hd (c := '\t') rfl,
    digit_ne hd (c := '\r') rfl]

theorem readValue_digit (depth : Nat) {d : Char} (hd : d.isDigit) (rest : List Char) (pos : Nat) :
    readValue false depth ⟨d :: rest, pos⟩ = (do
      let (n, after) ← readNumber false false ⟨d :: rest, pos⟩
      return (.number n, after)) := by
  rw [readValue.eq_def]
  dsimp only
  rw [skipBlanks_cons (not_isBlank_of_digit hd)]
  simp only [digit_ne hd (c := 'n') rfl, digit_ne hd (c := 't') rfl, digit_ne hd (c := 'f') rfl,
    digit_ne hd (c := '-') rfl, hd, if_true, if_false]

theorem readValue_minus (depth : Nat) (rest : List Char) (pos : Nat) :
    readValue false depth ⟨'-' :: rest, pos⟩ =
      readNumber false true ⟨rest, pos + 1⟩ >>= fun found => pure (.number found.1, found.2) := by
  rw [readValue.eq_def]
  rfl

theorem readsValue_integer (depth k : Nat) {v : Int} (h : Sized v) :
    ReadsValue depth (prettyAt k (.number (.integer v))).toList (.number (.integer v)) := by
  obtain ⟨hlow, hhigh⟩ := h
  rw [prettyAt, numberText, Int.toString_eq_repr]
  by_cases hv : v < 0
  · obtain ⟨n, rfl⟩ : ∃ n : Nat, v = -n := ⟨v.natAbs, by omega⟩
    have htext : (-(n : Int)).repr.toList = '-' :: Nat.toDigits 10 n := by
      simp [Int.repr_eq_if, show n ≠ 0 by omega]
    have hbound : n ≤ maxNatural := by
      simp only [maxNatural, Nat.pow_eq]
      omega
    rw [htext]
    refine ⟨⟨'-', _, rfl, rfl, by decide⟩, fun rest pos hr => ?_⟩
    obtain ⟨last, hlast⟩ := readNumber_digits hbound hr true (pos + 1)
    rw [endInteger_negative hr (by omega) (by omega)] at hlast
    exact ⟨last, by rw [List.cons_append, readValue_minus, hlast]; rfl⟩
  · obtain ⟨n, rfl⟩ : ∃ n : Nat, v = n := ⟨v.natAbs, by omega⟩
    have htext : (n : Int).repr.toList = Nat.toDigits 10 n := by simp [Int.repr_eq_if]
    obtain ⟨d, ds, hds⟩ := List.exists_cons_of_ne_nil (Nat.toDigits_ne_nil (n := n) (b := 10))
    have hdigit : d.isDigit :=
      Nat.isDigit_of_mem_toDigits (n := n) (b := 10) (by decide) (by decide) (by simp [hds])
    have hbound : n ≤ maxNatural := by omega
    rw [htext]
    refine ⟨⟨d, ds, hds, not_isBlank_of_digit hdigit, digit_ne hdigit rfl⟩, fun rest pos hr => ?_⟩
    obtain ⟨last, hlast⟩ := readNumber_digits hbound hr false pos
    rw [endInteger_ends hr, hds] at hlast
    exact ⟨last, by rw [hds, List.cons_append, readValue_digit depth hdigit, ← List.cons_append, hlast]; rfl⟩

theorem readsValue_null (depth k : Nat) : ReadsValue depth (prettyAt k .null).toList .null := by
  rw [prettyAt]
  refine ⟨⟨'n', _, rfl, rfl, by decide⟩, fun rest pos _ => ⟨pos + 4, ?_⟩⟩
  rw [readValue.eq_def]
  rfl

theorem readsValue_bool (depth k : Nat) (b : Bool) :
    ReadsValue depth (prettyAt k (.bool b)).toList (.bool b) := by
  rw [prettyAt]
  cases b with
  | false =>
      refine ⟨⟨'f', _, rfl, rfl, by decide⟩, fun rest pos _ => ⟨pos + 5, ?_⟩⟩
      rw [readValue.eq_def]
      rfl
  | true =>
      refine ⟨⟨'t', _, rfl, rfl, by decide⟩, fun rest pos _ => ⟨pos + 4, ?_⟩⟩
      rw [readValue.eq_def]
      rfl

/-- A number that is read as it is printed. -/
def Steady (n : Json.Number) : Prop := ∀ depth, ReadsValue depth (numberText n).toList (.number n)

theorem steady_integer {v : Int} (h : Sized v) : Steady (.integer v) := by
  intro depth
  have hvalue := readsValue_integer depth 0 h
  rwa [prettyAt] at hvalue

/-- A document that is nested no deeper than can be read, and whose fields are distinct.  Of its numbers
something holds. -/
inductive Regular (P : Json.Number → Prop) : Nat → Json → Prop
  | null (depth : Nat) : Regular P depth .null
  | bool (depth : Nat) (b : Bool) : Regular P depth (.bool b)
  | number (depth : Nat) {n : Json.Number} (holds : P n) : Regular P depth (.number n)
  | string (depth : Nat) (s : String) : Regular P depth (.string s)
  | array {depth : Nat} {items : List Json} (regular : ∀ j ∈ items, Regular P depth j) :
      Regular P (depth + 1) (.array items)
  | object {depth : Nat} {fields : List (String × Json)} (names : (fields.map Prod.fst).Nodup)
      (regular : ∀ f ∈ fields, Regular P depth f.2) : Regular P (depth + 1) (.object fields)

theorem lasting_iff {depth : Nat} {j : Json} :
    Lasting depth j ↔ Regular (fun n => ∃ v, n = .integer v ∧ Sized v) depth j := by
  constructor
  · intro h
    induction h with
    | null depth => exact .null depth
    | bool depth b => exact .bool depth b
    | integer depth sized => exact .number depth ⟨_, rfl, sized⟩
    | string depth s => exact .string depth s
    | array lasting ih => exact .array ih
    | object names lasting ih => exact .object names ih
  · intro h
    induction h with
    | null depth => exact .null depth
    | bool depth b => exact .bool depth b
    | number depth holds =>
        obtain ⟨v, rfl, sized⟩ := holds
        exact .integer depth sized
    | string depth s => exact .string depth s
    | array regular ih => exact .array ih
    | object names regular ih => exact .object names ih

namespace Regular

variable {P Q : Json.Number → Prop} {depth depth' : Nat} {j : Json}

theorem imp (h : Regular P depth j) (hpq : ∀ n, P n → Q n) : Regular Q depth j := by
  induction h with
  | null depth => exact .null depth
  | bool depth b => exact .bool depth b
  | number depth holds => exact .number depth (hpq _ holds)
  | string depth s => exact .string depth s
  | array regular ih => exact .array ih
  | object names regular ih => exact .object names ih

theorem mono (h : Regular P depth j) (hd : depth ≤ depth') : Regular P depth' j := by
  induction h generalizing depth' with
  | null => exact .null _
  | bool _ b => exact .bool _ b
  | number _ holds => exact .number _ holds
  | string _ s => exact .string _ s
  | array regular ih =>
      obtain ⟨depth', rfl⟩ : ∃ d, depth' = d + 1 := ⟨depth' - 1, by omega⟩
      exact .array fun j hj => ih j hj (by omega)
  | object names regular ih =>
      obtain ⟨depth', rfl⟩ : ∃ d, depth' = d + 1 := ⟨depth' - 1, by omega⟩
      exact .object names fun f hf => ih f hf (by omega)

/-- Every value is read as it is printed, if it is nested no deeper than can be read. -/
theorem readsValue (h : Regular Steady depth j) (k : Nat) : ReadsValue depth (prettyAt k j).toList j := by
  induction h generalizing k with
  | null depth => exact readsValue_null depth k
  | bool depth b => exact readsValue_bool depth k b
  | number depth holds =>
      rw [prettyAt]
      exact holds depth
  | string depth s => exact readsValue_string depth k s
  | array regular ih => exact readsValue_array k fun j hj => ih j hj (k + 1)
  | object names regular ih => exact readsValue_object k fun f hf => ih f hf (k + 1)

end Regular

/-! Distinct fields -/

theorem distinctItems_eq (items : List Json) : distinctItems items = items.map distinct := by
  induction items with
  | nil => rfl
  | cons item items ih => rw [distinctItems, ih, List.map_cons]

theorem distinctValues_eq (fields : List (String × Json)) :
    distinctValues fields = fields.map fun f => (f.1, distinct f.2) := by
  induction fields with
  | nil => rfl
  | cons field fields ih =>
      obtain ⟨name, value⟩ := field
      rw [distinctValues, ih, List.map_cons]

theorem Regular.distinct_eq {P : Json.Number → Prop} {depth : Nat} {j : Json} (h : Regular P depth j) :
    distinct j = j := by
  induction h with
  | null | bool | number | string => simp [distinct]
  | array regular ih =>
      rw [distinct, distinctItems_eq, List.map_congr_left ih, List.map_id']
  | @object depth fields names regular ih =>
      have hvalues : (fields.map fun f => (f.1, distinct f.2)) = fields := by
        rw [List.map_congr_left fun f hf => by rw [ih f hf], List.map_id']
      rw [distinct, distinctValues_eq, hvalues, distinctFields_of_nodup names]

/-- A document that has been printed is read as it was. -/
theorem Regular.read_pretty {j : Json} (h : Regular Steady maxDepth j) :
    Json.read (j.pretty ++ "\n") = .ok j := by
  obtain ⟨last, hlast⟩ := (h.readsValue 0).2 ['\n'] 0 ⟨'\n', [], rfl, .inr rfl⟩
  have htext : (j.pretty ++ "\n").toList = (prettyAt 0 j).toList ++ ['\n'] := by
    rw [String.toList_append]
    rfl
  have hend : readEnd ⟨['\n'], last⟩ = .ok () := rfl
  rw [Json.read, parse, htext, hlast]
  simp only [bind, Except.bind, hend, pure, Except.pure, Except.mapError, Except.map, h.distinct_eq]

theorem read_pretty {j : Json} (h : Lasting maxDepth j) : Json.read (j.pretty ++ "\n") = .ok j := by
  refine ((lasting_iff.1 h).imp fun n hn => ?_).read_pretty
  obtain ⟨v, rfl, sized⟩ := hn
  exact steady_integer sized

end WebModules.Json
