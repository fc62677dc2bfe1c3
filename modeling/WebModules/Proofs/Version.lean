import WebModules.Package.Request
import WebModules.Proofs.Package.Request
import WebModules.Version

/-!
Semantic versions as versions of requests.
-/

namespace WebModules

theorem Text.mem_of_mem_split {c d : Char} {cs : List Char} (h : d ∈ cs) : d = c ∨ ∃ part ∈ split c cs, d ∈ part := by
  induction cs with
  | nil => cases h
  | cons e r ih =>
      rw [split]
      split
      · rename_i he
        rcases List.mem_cons.1 h with rfl | h
        · exact .inl he
        · obtain rfl | ⟨part, hpart, hd⟩ := ih h
          · exact .inl rfl
          · exact .inr ⟨part, List.mem_cons_of_mem _ hpart, hd⟩
      · split
        · rename_i part parts hparts
          rcases List.mem_cons.1 h with rfl | h
          · exact .inr ⟨_, List.mem_cons_self, List.mem_cons_self⟩
          · obtain rfl | ⟨part', hpart', hd⟩ := ih h
            · exact .inl rfl
            · rw [hparts] at hpart'
              rcases List.mem_cons.1 hpart' with rfl | hpart'
              · exact .inr ⟨_, List.mem_cons_self, List.mem_cons_of_mem _ hd⟩
              · exact .inr ⟨part', List.mem_cons_of_mem _ hpart', hd⟩
        · rename_i hparts
          exact absurd hparts (split_ne_nil _ _)

namespace Version

open Text

/-- A character of a semantic version. -/
def IsSign (c : Char) : Prop := isIdentifierChar c ∨ c = '.' ∨ c = '-' ∨ c = '+'

theorem isSign_of_identifiers? {zeros : Bool} {cs : List Char} {parts : List (List Char)}
    (h : identifiers? zeros cs = some parts) : ∀ c ∈ cs, IsSign c := by
  intro c hc
  rw [identifiers?] at h
  split at h
  · rename_i hall
    rcases mem_of_mem_split (c := '.') hc with rfl | ⟨part, hpart, hc⟩
    · exact .inr (.inl rfl)
    · have hparts := List.all_eq_true.1 hall part hpart
      simp only [Bool.and_eq_true] at hparts
      exact .inl (List.all_eq_true.1 hparts.1.2 c hc)
  · cases h

theorem isSign_of_number? {cs : List Char} {n : Nat} (h : number? cs = some n) : ∀ c ∈ cs, IsSign c := by
  intro c hc
  rw [number?] at h
  split at h
  · cases h
  · rename_i hnumeric
    simp only [not_or, Bool.not_eq_true', Bool.not_eq_false] at hnumeric
    have hdigit := List.all_eq_true.1 hnumeric.2.1 c hc
    exact .inl (by simp [isIdentifierChar, Char.isAlphanum, hdigit])

theorem isSign_of_core {core : List Char} {major minor patch : List Char} (h : split '.' core = [major, minor, patch])
    (hmajor : ∀ c ∈ major, IsSign c) (hminor : ∀ c ∈ minor, IsSign c) (hpatch : ∀ c ∈ patch, IsSign c) :
    ∀ c ∈ core, IsSign c := by
  intro c hc
  rcases mem_of_mem_split (c := '.') hc with rfl | ⟨part, hpart, hc⟩
  · exact .inr (.inl rfl)
  · rw [h] at hpart
    simp only [List.mem_cons, List.not_mem_nil, or_false] at hpart
    rcases hpart with rfl | rfl | rfl
    exacts [hmajor c hc, hminor c hc, hpatch c hc]

/-- The identifiers that a sign stands before, with what comes before the sign; there are none without it. -/
def cutOff? (sign : Char) (zeros : Bool) (cs : List Char) : Option (List Char × List (List Char)) :=
  match splitFirst? sign cs with
  | some (front, back) => (identifiers? zeros back).map (front, ·)
  | none => some (cs, [])

theorem parse_prerelease (front : List Char) (build : List (List Char)) :
    (do
      let (core, prerelease) ← match splitFirst? '-' front with
        | some (core, prerelease) => do pure (core, ← identifiers? false prerelease)
        | none => pure (front, [])
      match split '.' core with
      | [major, minor, patch] =>
        return ⟨← number? major, ← number? minor, ← number? patch, prerelease, build⟩
      | _ => none : Option Version) = (cutOff? '-' false front).bind fun released =>
    match split '.' released.1 with
    | [major, minor, patch] => (number? major).bind fun major => (number? minor).bind fun minor =>
        (number? patch).bind fun patch => some ⟨major, minor, patch, released.2, build⟩
    | _ => none := by
  rw [cutOff?]
  rcases splitFirst? '-' front with _ | ⟨core, prerelease⟩
  · rfl
  · cases hids : identifiers? false prerelease
    · simp only [hids]
      rfl
    · simp only [hids]
      rfl

theorem parse?_eq (text : String) : parse? text =
    (cutOff? '+' true text.toList).bind fun built => (cutOff? '-' false built.1).bind fun released =>
      match split '.' released.1 with
      | [major, minor, patch] => (number? major).bind fun major => (number? minor).bind fun minor =>
          (number? patch).bind fun patch => some ⟨major, minor, patch, released.2, built.2⟩
      | _ => none := by
  rw [parse?, cutOff?]
  rcases splitFirst? '+' text.toList with _ | ⟨front, back⟩
  · exact parse_prerelease _ _
  · dsimp only
    rcases identifiers? true back with _ | build
    · rfl
    · exact parse_prerelease _ _

theorem isSign_of_cutOff? {sign : Char} (hsign : IsSign sign) {zeros : Bool} {cs : List Char}
    {cut : List Char × List (List Char)} (h : cutOff? sign zeros cs = some cut) (hfront : ∀ c ∈ cut.1, IsSign c) :
    ∀ c ∈ cs, IsSign c := by
  rw [cutOff?] at h
  split at h
  · rename_i before after hsplit
    obtain ⟨-, rfl⟩ := splitFirst?_eq_some hsplit
    obtain ⟨parts, hparts, rfl⟩ := Option.map_eq_some_iff.1 h
    exact List.forall_mem_append.2 ⟨hfront, List.forall_mem_cons.2 ⟨hsign, isSign_of_identifiers? hparts⟩⟩
  · cases h
    exact hfront

theorem isSign_of_parse? {text : String} {v : Version} (h : parse? text = some v) : ∀ c ∈ text.toList, IsSign c := by
  rw [parse?_eq] at h
  obtain ⟨built, hbuilt, h⟩ := Option.bind_eq_some_iff.1 h
  obtain ⟨released, hreleased, h⟩ := Option.bind_eq_some_iff.1 h
  refine isSign_of_cutOff? (.inr (.inr (.inr rfl))) hbuilt (isSign_of_cutOff? (.inr (.inr (.inl rfl))) hreleased ?_)
  split at h
  · rename_i major minor patch hparts
    obtain ⟨a, ha, h⟩ := Option.bind_eq_some_iff.1 h
    obtain ⟨b, hb, h⟩ := Option.bind_eq_some_iff.1 h
    obtain ⟨c, hc, -⟩ := Option.bind_eq_some_iff.1 h
    exact isSign_of_core hparts (isSign_of_number? ha) (isSign_of_number? hb) (isSign_of_number? hc)
  · cases h

theorem IsSign.not_isWhiteSpace {c : Char} (h : IsSign c) : isWhiteSpace c = false := by
  have hrange : 43 ≤ c.toNat ∧ c.toNat ≤ 122 := by
    rcases h with h | rfl | rfl | rfl
    · have hletters : c.isAlphanum = (decide (65 ≤ c.val ∧ c.val ≤ 90)
          || decide (97 ≤ c.val) && decide (c.val ≤ 122) || decide (48 ≤ c.val) && decide (c.val ≤ 57)) := rfl
      rw [isIdentifierChar, hletters] at h
      simp only [Bool.or_eq_true, Bool.and_eq_true, decide_eq_true_eq, beq_iff_eq,
        UInt32.le_iff_toNat_le] at h
      rcases h with ((h | h) | h) | rfl
      · exact ⟨le_trans (by decide) h.1, le_trans h.2 (by decide)⟩
      · exact ⟨le_trans (by decide) h.1, le_trans h.2 (by decide)⟩
      · exact ⟨le_trans (by decide) h.1, le_trans h.2 (by decide)⟩
      · decide
    all_goals decide
  simp only [isWhiteSpace, Bool.or_eq_false_iff, Bool.and_eq_false_iff, decide_eq_false_iff_not, beq_eq_false_iff_ne]
  omega

theorem normalizeVersion_eq {text : String} {v : Version} (h : parse? text = some v) :
    PackageRequest.normalizeVersion text = some text := by
  have hsign := isSign_of_parse? h
  have htrim : trim isWhiteSpace text.toList = text.toList := by
    rw [trim, trimStart_eq_self fun c hc => (hsign c (List.mem_of_mem_head? hc)).not_isWhiteSpace,
      trimEnd_eq_self_iff]
    exact fun c hc => (hsign c (List.mem_of_getLast? hc)).not_isWhiteSpace
  have hlatest : ¬ (text = "" ∨ text = "*" ∨ text = "latest") := by
    have hparses : (parse? text).isSome := by rw [h]; rfl
    rintro (rfl | rfl | rfl) <;> exact absurd hparses (by decide)
  rw [PackageRequest.normalizeVersion, PackageRequest.versionOfChars, htrim, String.ofList_toList]
  exact if_neg hlatest

end Version

end WebModules
