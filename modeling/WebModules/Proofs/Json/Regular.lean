import WebModules.Proofs.Basic
import WebModules.Proofs.Json.Document

/-!
Documents that have been read are nested no deeper than can be read, and their fields are distinct.
-/

namespace WebModules.Json

/-! What is read -/

theorem mem_readItems {Q : Json → Prop} {item : Input → Except Failure (Json × Input)}
    (hitem : ∀ i found, item i = .ok found → Q found.1) {fuel : Nat} {first : Bool} {i : Input}
    {found : List Json × Input} (h : readItems item fuel first i = .ok found) : ∀ j ∈ found.1, Q j := by
  induction fuel generalizing first i found with
  | zero => cases h
  | succ fuel ih =>
      have hgo {i : Input} {found : List Json × Input} (h : (item i >>= fun value =>
          readItems item fuel false value.2 >>= fun values => .ok (value.1 :: values.1, values.2)) =
            Except.ok found) : ∀ j ∈ found.1, Q j := by
        obtain ⟨value, hvalue, hrest⟩ := bind_eq_ok h
        obtain ⟨values, hvalues, hfound⟩ := bind_eq_ok hrest
        cases hfound
        exact List.forall_mem_cons.2 ⟨hitem _ _ hvalue, ih hvalues⟩
      rw [readItems] at h
      split at h
      · cases h
      · cases h
        simp
      · split at h
        · exact hgo h
        · split at h
          · dsimp only at h
            split at h
            · cases h
            · cases h
            · exact hgo h
          · cases h

theorem mem_readFields {Q : Json → Prop} {lenient : Bool} {value : String → Input → Except Failure (Json × Input)}
    (hvalue : ∀ name i found, value name i = .ok found → Q found.1) {fuel : Nat} {first : Bool} {i : Input}
    {found : List (String × Json) × Input} (h : readFields lenient value fuel first i = .ok found) :
    ∀ f ∈ found.1, Q f.2 := by
  induction fuel generalizing first i found with
  | zero => cases h
  | succ fuel ih =>
      have hgo {i : Input} {found : List (String × Json) × Input} (h : (readText lenient i >>= fun name =>
          readColon name.2 >>= fun after => value name.1 after >>= fun v =>
            readFields lenient value fuel false v.2 >>= fun fields =>
              .ok ((name.1, v.1) :: fields.1, fields.2)) = Except.ok found) : ∀ f ∈ found.1, Q f.2 := by
        obtain ⟨name, -, hnamed⟩ := bind_eq_ok h
        obtain ⟨colon, -, hcolon⟩ := bind_eq_ok hnamed
        obtain ⟨first, hfirst, hrest⟩ := bind_eq_ok hcolon
        obtain ⟨fields, hfields, hfound⟩ := bind_eq_ok hrest
        cases hfound
        exact List.forall_mem_cons.2 ⟨hvalue _ _ _ hfirst, ih hfields⟩
      rw [readFields] at h
      split at h
      · cases h
      · cases h
        simp
      · split at h
        · split at h
          · exact hgo h
          · cases h
        · split at h
          · dsimp only at h
            split at h
            · cases h
            · exact hgo h
            · cases h
            · cases h
          · cases h

theorem nodup_distinctFields {α : Type} (fields : List (String × α)) :
    ((distinctFields fields).map Prod.fst).Nodup := by
  have hfold (found : List (String × α)) (hn : (found.map Prod.fst).Nodup) :
      ((fields.foldl (fun found f => setField f.1 f.2 found) found).map Prod.fst).Nodup := by
    induction fields generalizing found with
    | nil => exact hn
    | cons f fields ih => exact ih _ (nodup_setField f.1 f.2 hn)
  exact hfold [] List.nodup_nil

theorem mem_distinctFields {α : Type} {fields : List (String × α)} {f : String × α}
    (h : f ∈ distinctFields fields) : f ∈ fields := by
  have hfold (fields found : List (String × α)) :
      f ∈ fields.foldl (fun found f => setField f.1 f.2 found) found → f ∈ found ∨ f ∈ fields := by
    induction fields generalizing found with
    | nil => exact .inl
    | cons first fields ih =>
        intro h
        rcases ih _ h with hm | hm
        · rcases mem_setField hm with rfl | hm
          · exact .inr List.mem_cons_self
          · exact .inl hm
        · exact .inr (List.mem_cons_of_mem _ hm)
  exact (hfold fields [] h).resolve_left (fun hm => nomatch hm)

theorem regular_of_readValue {lenient : Bool} {depth : Nat} {i : Input} {found : Json × Input}
    (h : readValue lenient depth i = .ok found) : Regular (fun _ => True) depth (distinct found.1) := by
  induction depth using Nat.strongRecOn generalizing i found with
  | ind depth ih =>
      rw [readValue.eq_def] at h
      dsimp only at h
      split at h
      case h_1 => cases h
      case h_2 =>
        split at h
        · obtain ⟨_, -, hfound⟩ := bind_eq_ok h
          cases hfound
          exact .null _
        split at h
        · obtain ⟨_, -, hfound⟩ := bind_eq_ok h
          cases hfound
          exact .bool _ _
        split at h
        · obtain ⟨_, -, hfound⟩ := bind_eq_ok h
          cases hfound
          exact .bool _ _
        split at h
        · obtain ⟨_, -, hfound⟩ := bind_eq_ok h
          cases hfound
          exact .number _ trivial
        split at h
        · obtain ⟨_, -, hfound⟩ := bind_eq_ok h
          cases hfound
          exact .number _ trivial
        split at h
        · obtain ⟨_, -, hfound⟩ := bind_eq_ok h
          cases hfound
          exact .string _ _
        split at h
        · split at h
          · cases h
          · obtain ⟨items, hitems, hfound⟩ := bind_eq_ok h
            cases hfound
            have hregular := mem_readItems (Q := fun j => Regular (fun _ => True) _ (distinct j))
              (fun _ _ => ih _ (Nat.lt_succ_self _)) hitems
            rw [distinct, distinctItems_eq]
            exact .array (List.forall_mem_map.2 hregular)
        split at h
        · split at h
          · cases h
          · obtain ⟨fields, hfields, hfound⟩ := bind_eq_ok h
            cases hfound
            have hregular := mem_readFields (Q := fun j => Regular (fun _ => True) _ (distinct j))
              (fun _ _ _ => ih _ (Nat.lt_succ_self _)) hfields
            rw [distinct, distinctValues_eq]
            refine .object (nodup_distinctFields _) fun f hf => ?_
            obtain ⟨field, hfield, rfl⟩ := List.mem_map.1 (mem_distinctFields hf)
            exact hregular field hfield
        · cases h

/-- What is parsed is a value with nothing but blanks after it. -/
theorem parse_eq_ok {text : String} {j : Json} (h : parse text = .ok j) : ∃ after,
    readValue false maxDepth ⟨text.toList, 0⟩ = .ok (j, after) ∧ readEnd after = .ok () := by
  obtain ⟨found, hv, hrest⟩ := bind_eq_ok (mapError_eq_ok h)
  obtain ⟨u, hend, hj⟩ := bind_eq_ok hrest
  obtain rfl : found.1 = j := Except.ok.inj hj
  exact ⟨found.2, hv, hend⟩

theorem read_eq_ok {text : String} {j : Json} (h : Json.read text = .ok j) :
    ∃ whole, parse text = .ok whole ∧ distinct whole = j := map_eq_ok h

/-- A document that has been read is regular. -/
theorem regular_of_read {text : String} {j : Json} (h : Json.read text = .ok j) :
    Regular (fun _ => True) maxDepth j := by
  obtain ⟨whole, hparse, rfl⟩ := read_eq_ok h
  obtain ⟨after, hvalue, -⟩ := parse_eq_ok hparse
  exact regular_of_readValue hvalue

/-! The numbers of a document -/

/-- A number stands somewhere in a document. -/
inductive HasNumber (n : Json.Number) : Json → Prop
  | number : HasNumber n (.number n)
  | array {items : List Json} {j : Json} (mem : j ∈ items) (inside : HasNumber n j) : HasNumber n (.array items)
  | object {fields : List (String × Json)} {f : String × Json} (mem : f ∈ fields) (inside : HasNumber n f.2) :
      HasNumber n (.object fields)

theorem Regular.of_numbers {P Q : Json.Number → Prop} {depth : Nat} {j : Json} (h : Regular P depth j)
    (hq : ∀ n, HasNumber n j → Q n) : Regular Q depth j := by
  induction h with
  | null depth => exact .null depth
  | bool depth b => exact .bool depth b
  | number depth holds => exact .number depth (hq _ .number)
  | string depth s => exact .string depth s
  | array regular ih => exact .array fun j hj => ih j hj fun n hn => hq n (.array hj hn)
  | object names regular ih => exact .object names fun f hf => ih f hf fun n hn => hq n (.object hf hn)

theorem Regular.holds {P : Json.Number → Prop} {depth : Nat} {j : Json} (h : Regular P depth j) {n : Json.Number}
    (hn : HasNumber n j) : P n := by
  induction h with
  | null | bool | string => cases hn
  | number depth holds =>
      cases hn
      exact holds
  | array regular ih =>
      cases hn with
      | array mem inside => exact ih _ mem inside
  | object names regular ih =>
      cases hn with
      | object mem inside => exact ih _ mem inside

end WebModules.Json
