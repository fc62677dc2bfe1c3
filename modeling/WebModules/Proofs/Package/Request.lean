import WebModules.Package.Request
import WebModules.Proofs.Text

/-!
Requests and the names under which manifests list them.  Such a name is read as a request itself, so
a sign of a version in it, or a blank at its end, is lost.
-/

namespace WebModules

namespace PackageRequest

open Text

/-! Names -/

/-- A name of a package, in a scope or in none. -/
inductive Named : List Char → Prop
  | plain {name : List Char} (start : name.head? ≠ some '@') (nonempty : name ≠ []) (slash : '/' ∉ name) :
      Named name
  | inScope {scope package : List Char} (start : scope.head? = some '@') (length : 2 ≤ scope.length)
      (slash : '/' ∉ scope) (nonempty : package ≠ []) (slash' : '/' ∉ package) :
      Named (scope ++ '/' :: package)

/-- What stands after a name. -/
def afterName : Option (List Char) → List Char
  | some target => '/' :: target
  | none => []

/-- A text up to its first slash, and what stands after the slash. -/
def firstPart (cs : List Char) : List Char × Option (List Char) :=
  match splitFirst? '/' cs with
  | some (part, target) => (part, some target)
  | none => (cs, none)

theorem firstPart_split (cs : List Char) :
    '/' ∉ (firstPart cs).1 ∧ (firstPart cs).1 ++ afterName (firstPart cs).2 = cs := by
  unfold firstPart
  cases h : splitFirst? '/' cs with
  | none => exact ⟨notMem_of_splitFirst?_eq_none h, List.append_nil cs⟩
  | some found =>
      obtain ⟨hslash, rfl⟩ := splitFirst?_eq_some h
      exact ⟨hslash, rfl⟩

theorem firstPart_append {part : List Char} (h : '/' ∉ part) (target : Option (List Char)) :
    firstPart (part ++ afterName target) = (part, target) := by
  cases target with
  | none => simp [firstPart, afterName, splitFirst?_of_notMem h]
  | some target => simp [firstPart, afterName, splitFirst?_append h]

theorem splitName?_plain {cs : List Char} (hstart : cs.head? ≠ some '@') :
    splitName? cs = if (firstPart cs).1.isEmpty then none else some (firstPart cs) := by
  rw [splitName?, if_neg hstart, firstPart]
  cases splitFirst? '/' cs <;> rfl

theorem splitName?_scope {scope : List Char} (hslash : '/' ∉ scope) {rest : List Char}
    (hstart : (scope ++ '/' :: rest).head? = some '@') :
    splitName? (scope ++ '/' :: rest) =
      if scope.length < 2 ∨ (firstPart rest).1.isEmpty then none
      else some (scope ++ '/' :: (firstPart rest).1, (firstPart rest).2) := by
  rw [splitName?, if_pos hstart, splitFirst?_append hslash]
  rfl

theorem splitName?_eq_some {cs name : List Char} {target : Option (List Char)}
    (h : splitName? cs = some (name, target)) : Named name ∧ cs = name ++ afterName target := by
  by_cases hstart : cs.head? = some '@'
  · cases hscope : splitFirst? '/' cs with
    | none => simp [splitName?, hstart, hscope] at h
    | some found =>
        obtain ⟨scope, rest⟩ := found
        obtain ⟨hslash, rfl⟩ := splitFirst?_eq_some hscope
        rw [splitName?_scope hslash hstart] at h
        split at h
        · cases h
        · rename_i hlong
          obtain ⟨hlength, hpackage⟩ := not_or.1 hlong
          obtain ⟨hslash', hrest⟩ := firstPart_split rest
          have hne : scope ≠ [] := by
            rintro rfl
            exact hlength Nat.zero_lt_two
          rw [List.head?_append_of_ne_nil _ hne] at hstart
          cases h
          refine ⟨.inScope hstart (Nat.le_of_not_lt hlength) hslash (by simpa using hpackage) hslash', ?_⟩
          rw [List.append_assoc, List.cons_append, hrest]
  · rw [splitName?_plain hstart] at h
    split at h
    · cases h
    · rename_i hne
      obtain ⟨hslash, hcs⟩ := firstPart_split cs
      rw [Option.some.inj h] at hne hslash hcs
      have hne : name ≠ [] := by simpa using hne
      refine ⟨.plain ?_ hne hslash, hcs.symm⟩
      rwa [← hcs, List.head?_append_of_ne_nil _ hne] at hstart

theorem Named.ne_nil {name : List Char} (h : Named name) : name ≠ [] := by
  cases h with
  | plain start nonempty slash => exact nonempty
  | inScope => simp

theorem Named.splitName?_append {name : List Char} (h : Named name) (target : Option (List Char)) :
    splitName? (name ++ afterName target) = some (name, target) := by
  cases h with
  | plain start nonempty slash =>
      have hstart : (name ++ afterName target).head? ≠ some '@' := by
        rwa [List.head?_append_of_ne_nil _ nonempty]
      simp [splitName?_plain hstart, firstPart_append slash, nonempty]
  | @inScope scope package start length slash nonempty slash' =>
      have hne : scope ≠ [] := by
        rintro rfl
        cases start
      have hstart : (scope ++ '/' :: (package ++ afterName target)).head? = some '@' := by
        rw [List.head?_append_of_ne_nil _ hne, start]
      rw [List.append_assoc, List.cons_append, splitName?_scope slash hstart, firstPart_append slash']
      simp [nonempty, Nat.not_lt.2 length]

/-! What is read -/

/-- A request as texts are read: with a name that starts with no blank, a path without slashes around it, and a
version other than the latest. -/
structure Formed (r : PackageRequest) : Prop where
  named : Named r.name.toList
  start : ∀ c ∈ r.name.toList.head?, isWhiteSpace c = false
  target : ∀ target ∈ r.target, targetOfChars target.toList = some target
  version : ∀ version ∈ r.version, normalizeVersion version = some version

theorem targetOfChars_idem {cs : List Char} {target : String} (h : targetOfChars cs = some target) :
    targetOfChars target.toList = some target := by
  rw [targetOfChars] at h
  split at h
  · cases h
  · rename_i hne
    cases h
    rw [targetOfChars, String.toList_ofList, trim_trim, if_neg hne]

theorem normalizeVersion_idem {cs : List Char} {version : String} (h : versionOfChars cs = some version) :
    normalizeVersion version = some version := by
  rw [versionOfChars] at h
  split at h
  · cases h
  · rename_i hlatest
    cases h
    rw [normalizeVersion, versionOfChars, String.toList_ofList, trim_trim]
    exact if_neg hlatest

theorem splitVersion_eq {cs spec : List Char} {version : Option String} (h : splitVersion cs = (spec, version)) :
    spec <+: cs ∧ ∀ v ∈ version, normalizeVersion v = some v := by
  rw [splitVersion] at h
  split at h
  · rename_i before after hsplit
    split at h
    · cases h
      exact ⟨List.prefix_refl _, nofun⟩
    · cases h
      rw [splitLast?_eq_some hsplit]
      exact ⟨List.prefix_append _ _, fun v hv => normalizeVersion_idem hv⟩
  · cases h
    exact ⟨List.prefix_refl _, nofun⟩

theorem length_le_of_targetOfChars {cs : List Char} {target : String} (h : targetOfChars cs = some target) :
    target.toList.length ≤ cs.length := by
  rw [targetOfChars] at h
  split at h
  · cases h
  · cases h
    rw [String.toList_ofList]
    exact length_trim_le _ _

theorem toList_key (r : PackageRequest) :
    r.key.toList = r.name.toList ++ afterName (r.target.map String.toList) := by
  cases hr : r.target <;> simp [key, hr, afterName]

/-- What is read is formed, and its name in a manifest is no longer than the text without its version. -/
theorem parse_eq_ok {input : String} {r : PackageRequest} (h : parse input = .ok r) :
    r.Formed ∧ ∃ spec version, splitVersion (trim isWhiteSpace input.toList) = (spec, version) ∧
      r.key.toList.length ≤ spec.length := by
  rw [parse] at h
  split at h
  rename_i spec version hversion
  split at h
  · cases h
  · rename_i name target hname
    cases h
    obtain ⟨hfront, hnormal⟩ := splitVersion_eq hversion
    obtain ⟨hnamed, rfl⟩ := splitName?_eq_some hname
    refine ⟨⟨by rwa [String.toList_ofList], ?_, fun path hpath => ?_, hnormal⟩, _, _, hversion, ?_⟩
    · rw [String.toList_ofList]
      exact head_trim_of_front ((List.prefix_append _ _).trans hfront)
    · obtain ⟨cs, -, hcs⟩ := Option.bind_eq_some_iff.1 hpath
      exact targetOfChars_idem hcs
    · rw [toList_key, String.toList_ofList, List.length_append, List.length_append]
      refine Nat.add_le_add_left ?_ _
      cases target with
      | none => exact Nat.le_refl _
      | some cs =>
          cases hcs : targetOfChars cs with
          | none => simp [hcs, afterName]
          | some path => simpa [hcs, afterName] using length_le_of_targetOfChars hcs

/-! Names that are read again -/

/-- A name in a manifest that is read as a request for itself: no sign of a version follows its first
character, and no blank stands at its end. -/
def Lasts (key : String) : Prop :=
  '@' ∉ key.toList.tail ∧ ∀ c ∈ key.toList.getLast?, isWhiteSpace c = false

variable {r : PackageRequest}

theorem splitVersion_of_notMem {cs : List Char} (h : '@' ∉ cs.tail) : splitVersion cs = (cs, none) := by
  rw [splitVersion]
  split
  · rename_i before after hsplit
    cases before with
    | nil => rfl
    | cons c before =>
        rw [splitLast?_eq_some hsplit] at h
        simp at h
  · rfl

theorem Formed.trimStart_key (h : r.Formed) : trimStart isWhiteSpace r.key.toList = r.key.toList := by
  refine trimStart_eq_self ?_
  rw [toList_key, List.head?_append_of_ne_nil _ h.named.ne_nil]
  exact h.start

/-- A request is read from a text that is its name in a manifest before a version. -/
theorem Formed.parse_of_splitVersion (h : r.Formed) {input : String} {version : Option String}
    (hsplit : splitVersion (trim isWhiteSpace input.toList) = (r.key.toList, version)) :
    parse input = .ok { r with version } := by
  have hname : splitName? r.key.toList = some (r.name.toList, r.target.map String.toList) := by
    rw [toList_key]
    exact h.named.splitName?_append _
  have htarget : (r.target.map String.toList).bind targetOfChars = r.target := by
    cases ht : r.target with
    | none => rfl
    | some target => exact h.target target ht
  rw [parse, hsplit]
  simp only [hname, htarget, String.ofList_toList]

theorem Formed.parse_key (h : r.Formed) (hl : Lasts r.key) : parse r.key = .ok { r with version := none } := by
  have htrim : trim isWhiteSpace r.key.toList = r.key.toList := by
    rw [trim, h.trimStart_key, trimEnd_eq_self_iff]
    exact hl.2
  apply h.parse_of_splitVersion
  rw [htrim, splitVersion_of_notMem hl.1]

theorem Formed.lasts_of_parse (h : r.Formed) {r' : PackageRequest} (hp : parse r.key = .ok r')
    (hk : r'.key = r.key) : Lasts r.key := by
  obtain ⟨-, spec, version, hversion, hlength⟩ := parse_eq_ok hp
  rw [hk] at hlength
  -- Nothing can have been cut off, since what is left is no shorter than the name.
  have htrim : trim isWhiteSpace r.key.toList = r.key.toList := by
    have hfront := trim_front isWhiteSpace r.key.toList
    rw [h.trimStart_key] at hfront
    refine hfront.eq_of_length (le_antisymm (length_trim_le _ _) ?_)
    exact hlength.trans (splitVersion_eq hversion).1.length_le
  rw [htrim] at hversion
  refine ⟨fun hsign => ?_, ?_⟩
  · have hmem : '@' ∈ r.key.toList := List.mem_of_mem_tail hsign
    obtain ⟨⟨before, after⟩, hsplit⟩ := Option.ne_none_iff_exists'.1 (splitLast?_ne_none hmem)
    have hkey := splitLast?_eq_some hsplit
    have hbefore : before ≠ [] := by
      rintro rfl
      rw [hkey] at hsign
      exact notMem_of_splitLast? hsplit hsign
    simp only [splitVersion, hsplit, List.isEmpty_iff, hbefore, if_false, Prod.mk.injEq] at hversion
    rw [hkey, ← hversion.1, List.length_append, List.length_cons] at hlength
    omega
  · rw [← trimEnd_eq_self_iff]
    rwa [trim, h.trimStart_key] at htrim

end PackageRequest

end WebModules
