import WebModules.Proofs.Package.Request

/-!
Requests and the texts that they are written as.  A request whose parts hold no sign that means something else is read
again from its text, and what is read from any text has a name, a target and a version of a certain form.
-/

namespace WebModules

namespace PackageRequest

open Text

/-! Requests that can be written -/

/-- Characters that end no part of a request: no sign of a version, and no blanks. -/
def Clear (cs : List Char) : Prop := '@' ∉ cs ∧ ∀ c ∈ cs, isWhiteSpace c = false

/-- A part of a name. -/
structure Word (cs : List Char) : Prop where
  nonempty : cs ≠ []
  slash : '/' ∉ cs
  clear : Clear cs

/-- A name that can be written, in a scope or in none. -/
inductive Title : List Char → Prop
  | plain {package : List Char} (h : Word package) : Title package
  | inScope {scope package : List Char} (h : Word scope) (h' : Word package) : Title ('@' :: scope ++ '/' :: package)

/-- A request that can be written, so that its text can be read. -/
structure Writable (r : PackageRequest) : Prop where
  name : Title r.name.toList
  target : ∀ target ∈ r.target, target ≠ "" ∧ Clear target.toList ∧ target.toList.head? ≠ some '/' ∧
    target.toList.getLast? ≠ some '/'
  version : ∀ version ∈ r.version, version ≠ "" ∧ Clear version.toList ∧ version ≠ "*" ∧ version ≠ "latest"

theorem Word.named {package : List Char} (h : Word package) : Named package :=
  .plain (fun hhead => h.clear.1 (List.mem_of_mem_head? hhead)) h.nonempty h.slash

theorem Title.named {name : List Char} (h : Title name) : Named name := by
  cases h with
  | plain h => exact h.named
  | @inScope scope package h h' =>
      refine .inScope rfl ?_ (by simpa using h.slash) h'.nonempty h'.slash
      have hpos := List.length_pos_iff.2 h.nonempty
      rw [List.length_cons]
      omega

/-- Only the sign of a scope is in a name, and that comes first. -/
theorem Title.sign_notMem {name : List Char} (h : Title name) : '@' ∉ name.tail := by
  cases h with
  | plain h => exact fun hmem => h.clear.1 (List.mem_of_mem_tail hmem)
  | inScope h h' => simp [h.clear.1, h'.clear.1]

theorem Title.not_blank {name : List Char} (h : Title name) : ∀ c ∈ name, isWhiteSpace c = false := by
  cases h with
  | plain h => exact h.clear.2
  | inScope h h' =>
      have hsigns : isWhiteSpace '@' = false ∧ isWhiteSpace '/' = false := by decide
      simp only [List.cons_append, List.forall_mem_cons, List.forall_mem_append]
      exact ⟨hsigns.1, h.clear.2, hsigns.2, h'.clear.2⟩

theorem Clear.versionOfChars_eq {version : String} (h : Clear version.toList)
    (hlatest : version ≠ "" ∧ version ≠ "*" ∧ version ≠ "latest") : versionOfChars version.toList = some version := by
  rw [versionOfChars, trim_of_forall h.2, String.ofList_toList]
  exact if_neg (by tauto)

namespace Writable

variable {r : PackageRequest}

theorem formed (h : r.Writable) : r.Formed where
  named := h.name.named
  start c hc := h.name.not_blank c (List.mem_of_mem_head? hc)
  target target ht := by
    obtain ⟨hne, -, hstart, hend⟩ := h.target target ht
    have htrim : trim (· == '/') target.toList = target.toList :=
      trim_eq_self_iff.2 ⟨fun c hc => by simpa [Option.mem_def.1 hc] using hstart,
        fun c hc => by simpa [Option.mem_def.1 hc] using hend⟩
    rw [targetOfChars, htrim, String.ofList_toList]
    simp [hne]
  version version hv := by
    obtain ⟨hne, hclear, hlatest⟩ := h.version version hv
    exact hclear.versionOfChars_eq ⟨hne, hlatest⟩

theorem sign_notMem_key (h : r.Writable) : '@' ∉ r.key.toList.tail := by
  rw [toList_key, List.tail_append_of_ne_nil h.formed.named.ne_nil, List.mem_append, not_or]
  refine ⟨h.name.sign_notMem, ?_⟩
  cases ht : r.target with
  | none => simp [afterName]
  | some target => simp [afterName, (h.target target ht).2.1.1]

theorem not_blank_key (h : r.Writable) : ∀ c ∈ r.key.toList, isWhiteSpace c = false := by
  rw [toList_key]
  cases ht : r.target with
  | none => simpa [afterName] using h.name.not_blank
  | some target =>
      have hslash : isWhiteSpace '/' = false := by decide
      simp only [Option.map_some, afterName, List.forall_mem_append, List.forall_mem_cons]
      exact ⟨h.name.not_blank, hslash, (h.target target ht).2.1.2⟩

theorem splitVersion_text (h : r.Writable) :
    splitVersion (trim isWhiteSpace r.text.toList) = (r.key.toList, r.version) := by
  cases hv : r.version with
  | none =>
      have htext : r.text = r.key := by rw [text, hv]
      rw [htext, trim_of_forall h.not_blank_key, splitVersion_of_notMem h.sign_notMem_key]
  | some version =>
      obtain ⟨hne, hclear, hlatest⟩ := h.version version hv
      have htext : r.text.toList = r.key.toList ++ '@' :: version.toList := by
        simp [text, hv]
      have hblank : ∀ c ∈ r.text.toList, isWhiteSpace c = false := by
        have hsign : isWhiteSpace '@' = false := by decide
        rw [htext]
        simp only [List.forall_mem_append, List.forall_mem_cons]
        exact ⟨h.not_blank_key, hsign, hclear.2⟩
      have hkey : r.key.toList ≠ [] := by
        rw [toList_key]
        exact List.append_ne_nil_of_left_ne_nil h.formed.named.ne_nil _
      rw [trim_of_forall hblank, htext, splitVersion, splitLast?_append hclear.1]
      simp [hkey, hclear.versionOfChars_eq ⟨hne, hlatest⟩]

theorem parse_text (h : r.Writable) : parse r.text = .ok r :=
  h.formed.parse_of_splitVersion h.splitVersion_text

end Writable

/-! Requests that are read -/

/-- A request as it may be read from a text. -/
structure Shaped (r : PackageRequest) : Prop where
  named : Named r.name.toList
  target : ∀ target ∈ r.target, target ≠ "" ∧ target.toList.head? ≠ some '/' ∧ target.toList.getLast? ≠ some '/'
  version : ∀ version ∈ r.version, trim isWhiteSpace version.toList = version.toList ∧ '@' ∉ version.toList ∧
    version ≠ "" ∧ version ≠ "*" ∧ version ≠ "latest"

theorem ends_of_targetOfChars {target : String} (h : targetOfChars target.toList = some target) :
    target ≠ "" ∧ target.toList.head? ≠ some '/' ∧ target.toList.getLast? ≠ some '/' := by
  rw [targetOfChars] at h
  split at h
  · cases h
  · rename_i hne
    have htrim : trim (· == '/') target.toList = target.toList := by
      rw [← String.ofList_inj, String.ofList_toList]
      exact Option.some.inj h
    rw [htrim] at hne
    obtain ⟨hstart, hend⟩ := trim_eq_self_iff.1 htrim
    exact ⟨by simpa using hne, fun hhead => by simpa using hstart _ hhead, fun hlast => by simpa using hend _ hlast⟩

theorem ends_of_normalizeVersion {version : String} (h : normalizeVersion version = some version) :
    trim isWhiteSpace version.toList = version.toList ∧ version ≠ "" ∧ version ≠ "*" ∧ version ≠ "latest" := by
  rw [normalizeVersion, versionOfChars] at h
  split at h
  · cases h
  · rename_i hlatest
    have htrim := Option.some.inj h
    rw [htrim] at hlatest
    refine ⟨?_, by tauto⟩
    rw [← String.ofList_inj, htrim, String.ofList_toList]

theorem sign_notMem_of_splitVersion {cs spec : List Char} {version : String}
    (h : splitVersion cs = (spec, some version)) : '@' ∉ version.toList := by
  rw [splitVersion] at h
  split at h
  · rename_i before after hsplit
    split at h
    · cases h
    · have hversion := (Prod.mk.inj h).2
      rw [versionOfChars] at hversion
      split at hversion
      · cases hversion
      · cases hversion
        rw [String.toList_ofList]
        exact fun hmem => notMem_of_splitLast? hsplit ((trim_sublist _ _).subset hmem)
  · cases h

theorem shaped_of_parse {input : String} {r : PackageRequest} (h : parse input = .ok r) : r.Shaped := by
  obtain ⟨hformed, -⟩ := parse_eq_ok h
  refine ⟨hformed.named, fun target ht => ends_of_targetOfChars (hformed.target target ht), fun version hv => ?_⟩
  obtain ⟨htrim, hlatest⟩ := ends_of_normalizeVersion (hformed.version version hv)
  refine ⟨htrim, ?_, hlatest⟩
  rw [parse] at h
  split at h
  rename_i spec asked hsplit
  split at h
  · cases h
  · cases h
    exact sign_notMem_of_splitVersion (hsplit.trans (congrArg _ hv))

/-- A request whose parts hold no sign that means something else is read again from its text.  Whatever is read from a
text has a name with at most one slash, which stands after a scope, a target without slashes around it, and a version
other than the latest. -/
theorem parse_written : (∀ r : PackageRequest, r.Writable → parse r.text = .ok r) ∧
    ∀ input r, parse input = .ok r → r.Shaped :=
  ⟨fun _ h => h.parse_text, fun _ _ h => shaped_of_parse h⟩

/-- A file of a package in a scope, at a version. -/
def fileRequest : PackageRequest := ⟨"@scope/pkg", some "dist/sub.js", some "^2.0.0"⟩

theorem writable_fileRequest : fileRequest.Writable where
  name := by
    have hscope : Word "scope".toList := ⟨by decide, by decide, by decide, by decide⟩
    have hpackage : Word "pkg".toList := ⟨by decide, by decide, by decide, by decide⟩
    exact .inScope hscope hpackage
  target := by
    rintro target ⟨⟩
    exact ⟨by decide, ⟨by decide, by decide⟩, by decide, by decide⟩
  version := by
    rintro version ⟨⟩
    exact ⟨by decide, ⟨by decide, by decide⟩, by decide, by decide⟩

theorem parse_written_inScope : fileRequest.Writable ∧ parse "@scope/pkg/dist/sub.js@^2.0.0" = .ok fileRequest ∧
    fileRequest.Shaped := by
  have hread := parse_written.1 fileRequest writable_fileRequest
  exact ⟨writable_fileRequest, hread, parse_written.2 _ _ hread⟩

end PackageRequest

end WebModules
