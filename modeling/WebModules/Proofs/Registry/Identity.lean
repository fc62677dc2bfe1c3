import WebModules.Proofs.Package.Request
import WebModules.Registry.Backend

/-!
The paths that registries serve modules from.  Such a path is made of its parts in one way only, and what a registry
tells about the module are these parts.
-/

namespace WebModules

namespace Backend

open Text
open PackageRequest (afterName)

/-! Names -/

/-- The name of a package before the sign of its version, in a scope or in none. -/
inductive Named : List Char → Prop
  | plain {package : List Char} (nonempty : package ≠ []) (slash : '/' ∉ package) (sign : '@' ∉ package) :
      Named package
  | inScope {scope package : List Char} (given : scope ≠ []) (slash : '/' ∉ scope) (nonempty : package ≠ [])
      (slash' : '/' ∉ package) (sign : '@' ∉ package) : Named ('@' :: scope ++ '/' :: package)

/-- A scope with the slash after it, if a text starts with one, and what follows. -/
def splitScope? (cs : List Char) : Option (List Char × List Char) :=
  if cs.head? = some '@' then
    (splitFirst? '/' cs).bind fun (scope, rest) => if scope.length < 2 then none else some (scope ++ ['/'], rest)
  else some ([], cs)

/-- The name of a package after its scope, up to the sign of a version, and what follows the sign. -/
def splitPackage? (scope cs : List Char) : Option (List Char × List Char) :=
  let package := cs.takeWhile fun c => c != '/' && c != '@'
  match cs.drop package.length with
  | '@' :: after => if package.isEmpty then none else some (scope ++ package, after)
  | _ => none

theorem splitName?_eq (cs : List Char) :
    splitName? cs = (splitScope? cs).bind fun (scope, rest) => splitPackage? scope rest := by
  rw [splitName?, splitScope?]
  split
  · rcases splitFirst? '/' cs with _ | ⟨scope, rest⟩
    · rfl
    · simp only [Option.bind_eq_bind, Option.bind_some]
      split <;> rfl
  · rfl

theorem takeWhile_package {package : List Char} (hslash : '/' ∉ package) (hsign : '@' ∉ package) (after : List Char) :
    (package ++ '@' :: after).takeWhile (fun c => c != '/' && c != '@') = package := by
  rw [List.takeWhile_append_of_pos, List.takeWhile_cons_of_neg, List.append_nil]
  · simp
  · intro c hc
    simp [ne_of_mem_of_not_mem hc hslash, ne_of_mem_of_not_mem hc hsign]

theorem splitPackage?_append {package : List Char} (hne : package ≠ []) (hslash : '/' ∉ package) (hsign : '@' ∉ package)
    (scope after : List Char) : splitPackage? scope (package ++ '@' :: after) = some (scope ++ package, after) := by
  simp [splitPackage?, takeWhile_package hslash hsign, hne]

theorem splitPackage?_eq_some {scope cs name after : List Char} (h : splitPackage? scope cs = some (name, after)) :
    ∃ package, name = scope ++ package ∧ cs = package ++ '@' :: after ∧
      package ≠ [] ∧ '/' ∉ package ∧ '@' ∉ package := by
  rw [splitPackage?] at h
  split at h
  · rename_i rest hrest
    split at h
    · cases h
    · rename_i hne
      cases h
      have hmem (c : Char) (hc : c ∈ cs.takeWhile fun c => c != '/' && c != '@') : c ≠ '/' ∧ c ≠ '@' := by
        simpa using List.mem_takeWhile_imp hc
      refine ⟨_, rfl, ?_, by simpa using hne, fun hslash => (hmem _ hslash).1 rfl, fun hsign => (hmem _ hsign).2 rfl⟩
      rw [← hrest, List.prefix_iff_eq_append.1 (List.takeWhile_prefix _)]
  · cases h

theorem Named.splitName?_append {name : List Char} (h : Named name) (after : List Char) :
    splitName? (name ++ '@' :: after) = some (name, after) := by
  rw [splitName?_eq]
  cases h with
  | plain nonempty slash sign =>
      have hstart : (name ++ '@' :: after).head? ≠ some '@' := by
        rw [List.head?_append_of_ne_nil _ nonempty]
        exact fun hhead => sign (List.mem_of_mem_head? hhead)
      rw [splitScope?, if_neg hstart]
      exact splitPackage?_append nonempty slash sign [] after
  | @inScope scope package given slash nonempty slash' sign =>
      have hscope : splitScope? ('@' :: scope ++ '/' :: (package ++ '@' :: after)) =
          some ('@' :: scope ++ ['/'], package ++ '@' :: after) := by
        have hlong : ¬ ('@' :: scope).length < 2 := by
          have hpos := List.length_pos_iff.2 given
          rw [List.length_cons]
          omega
        rw [splitScope?, if_pos (by rfl), splitFirst?_append (by simpa using slash)]
        exact if_neg hlong
      have hassoc : '@' :: scope ++ '/' :: package ++ '@' :: after =
          '@' :: scope ++ '/' :: (package ++ '@' :: after) := by
        simp
      rw [hassoc, hscope]
      simpa using splitPackage?_append nonempty slash' sign ('@' :: scope ++ ['/']) after

theorem splitName?_eq_some {cs name after : List Char} (h : splitName? cs = some (name, after)) :
    Named name ∧ cs = name ++ '@' :: after := by
  rw [splitName?_eq] at h
  obtain ⟨⟨scope, rest⟩, hscope, hpackage⟩ := Option.bind_eq_some_iff.1 h
  obtain ⟨package, rfl, rfl, hne, hslash, hsign⟩ := splitPackage?_eq_some hpackage
  rw [splitScope?] at hscope
  split at hscope
  · rename_i hstart
    obtain ⟨⟨before, rest⟩, hsplit, hcut⟩ := Option.bind_eq_some_iff.1 hscope
    obtain ⟨hslash', rfl⟩ := splitFirst?_eq_some hsplit
    dsimp only at hcut
    split at hcut
    · cases hcut
    · rename_i hlong
      cases hcut
      cases before with
      | nil => exact absurd (Nat.zero_lt_two) hlong
      | cons c before =>
          obtain rfl : c = '@' := Option.some.inj hstart
          have hgiven : before ≠ [] := by
            rintro rfl
            exact hlong Nat.one_lt_two
          have hbefore : '/' ∉ before := fun hmem => hslash' (List.mem_cons_of_mem _ hmem)
          have hname := Named.inScope hgiven hbefore hne hslash hsign
          simpa using hname
  · cases hscope
    exact ⟨.plain hne hslash hsign, rfl⟩

/-! Paths -/

/-- A path that a registry of the kind with versions and files serves a module from. -/
@[ext]
structure UnpkgPath where
  name : List Char
  version : List Char
  /-- What stands after the version and a slash. -/
  rest : Option (List Char)
  named : Named name
  version_ne : version ≠ []
  version_slash : '/' ∉ version
  rest_line : ∀ cs ∈ rest, '\n' ∉ cs

/-- A path that a registry of the kind with versions, hashes and files serves a module from. -/
@[ext]
structure PikaPath where
  name : List Char
  version : List Char
  hash : List Char
  /-- What stands between the hash and the last slash, if that is another one than the first. -/
  directories : Option (List Char)
  target : List Char
  named : Named name
  version_ne : version ≠ []
  version_slash : '/' ∉ version
  hash_ne : hash ≠ []
  hash_slash : '/' ∉ hash
  hash_hyphen : '-' ∉ hash
  directories_line : ∀ cs ∈ directories, '\n' ∉ cs
  target_ne : target ≠ []
  target_slash : '/' ∉ target

namespace UnpkgPath

def text (p : UnpkgPath) : List Char := '/' :: (p.name ++ '@' :: (p.version ++ afterName p.rest))

def identity (p : UnpkgPath) : ModuleIdentity :=
  ⟨String.ofList p.name, (p.rest.filter fun cs => !cs.isEmpty).map String.ofList, String.ofList p.version⟩

theorem splitSegment_append {segment : List Char} (h : '/' ∉ segment) (rest : Option (List Char)) :
    splitSegment (segment ++ afterName rest) = (segment, rest) := by
  cases rest with
  | none => rw [afterName, List.append_nil, splitSegment, splitFirst?_of_notMem h]
  | some cs => rw [afterName, splitSegment, splitFirst?_append h]

theorem splitSegment_eq (cs : List Char) :
    '/' ∉ (splitSegment cs).1 ∧ cs = (splitSegment cs).1 ++ afterName (splitSegment cs).2 := by
  rw [splitSegment]
  split
  · rename_i hsplit
    exact splitFirst?_eq_some hsplit
  · rename_i hsplit
    exact ⟨notMem_of_splitFirst?_eq_none hsplit, (List.append_nil _).symm⟩

theorem identify_text (p : UnpkgPath) : identifyUnpkg? p.text = some p.identity := by
  have hline : '\n' ∉ p.rest.getD [] := by
    cases hrest : p.rest with
    | none => exact List.not_mem_nil
    | some cs => exact p.rest_line cs hrest
  simp [text, identifyUnpkg?, p.named.splitName?_append, splitSegment_append p.version_slash, p.version_ne, hline,
    identity]

theorem exists_of_identify {cs : List Char} {m : ModuleIdentity} (h : identifyUnpkg? cs = some m) :
    ∃ p : UnpkgPath, p.text = cs := by
  unfold identifyUnpkg? at h
  split at h
  · obtain ⟨⟨name, after⟩, hname, hserved⟩ := Option.bind_eq_some_iff.1 h
    obtain ⟨hnamed, rfl⟩ := splitName?_eq_some hname
    obtain ⟨hslash, hafter⟩ := splitSegment_eq after
    dsimp only at hserved
    split at hserved
    · cases hserved
    · rename_i hvalid
      rw [not_or] at hvalid
      refine ⟨⟨name, (splitSegment after).1, (splitSegment after).2, hnamed, by simpa using hvalid.1, hslash, ?_⟩, ?_⟩
      · intro cs hcs
        have hline := hvalid.2
        rw [Option.mem_def.1 hcs] at hline
        simpa using hline
      · rw [text, ← hafter]
  · cases h

theorem text_injective {p q : UnpkgPath} (h : p.text = q.text) : p = q := by
  have hname := congrArg splitName? (List.cons.inj h).2
  simp only [p.named.splitName?_append, q.named.splitName?_append, Option.some.injEq, Prod.mk.injEq] at hname
  have hversion := congrArg splitSegment hname.2
  simp only [splitSegment_append p.version_slash, splitSegment_append q.version_slash, Prod.mk.injEq] at hversion
  exact UnpkgPath.ext hname.1 hversion.1 hversion.2

end UnpkgPath

namespace PikaPath

/-- Directories with a slash after them. -/
def leading : Option (List Char) → List Char
  | some directories => directories ++ ['/']
  | none => []

def text (p : PikaPath) : List Char :=
  '/' :: '-' :: '/' ::
    (p.name ++ '@' :: 'v' :: (p.version ++ '-' :: p.hash ++ '/' :: (leading p.directories ++ p.target)))

def identity (p : PikaPath) : ModuleIdentity :=
  ⟨String.ofList p.name, some (String.ofList p.target), String.ofList p.version⟩

theorem splitLast?_leading {target : List Char} (h : '/' ∉ target) (directories : Option (List Char)) :
    splitLast? '/' (leading directories ++ target) = directories.map (·, target) := by
  cases directories with
  | none => exact splitLast?_of_notMem h
  | some cs =>
      rw [leading, List.append_assoc, List.singleton_append]
      exact splitLast?_append h cs

theorem getD_leading {target : List Char} (h : '/' ∉ target) (directories : Option (List Char)) :
    (splitLast? '/' (leading directories ++ target)).getD ([], leading directories ++ target) =
      (directories.getD [], target) := by
  rw [splitLast?_leading h]
  cases directories <;> rfl

theorem exists_leading (cs : List Char) : ∃ directories target, cs = leading directories ++ target ∧ '/' ∉ target := by
  cases hsplit : splitLast? '/' cs with
  | none => exact ⟨none, cs, rfl, fun hmem => splitLast?_ne_none hmem hsplit⟩
  | some found =>
      refine ⟨some found.1, found.2, ?_, notMem_of_splitLast? hsplit⟩
      rw [leading, List.append_assoc, List.singleton_append]
      exact splitLast?_eq_some hsplit

variable (p : PikaPath)

theorem slash_notMem_segment : '/' ∉ p.version ++ '-' :: p.hash := by
  simp [p.version_slash, p.hash_slash]

theorem identify_text : identifyPika? p.text = some p.identity := by
  have hline : '\n' ∉ p.directories.getD [] := by
    cases hdirectories : p.directories with
    | none => exact List.not_mem_nil
    | some cs => exact p.directories_line cs hdirectories
  simp only [text, identifyPika?, p.named.splitName?_append, Option.bind_eq_bind, Option.bind_some,
    splitFirst?_append p.slash_notMem_segment, splitLast?_append p.hash_hyphen, getD_leading p.target_slash]
  simp [p.version_ne, p.hash_ne, p.target_ne, hline, identity]

theorem exists_of_identify {cs : List Char} {m : ModuleIdentity} (h : identifyPika? cs = some m) :
    ∃ p : PikaPath, p.text = cs := by
  unfold identifyPika? at h
  split at h
  · obtain ⟨⟨name, after⟩, hname, hafter⟩ := Option.bind_eq_some_iff.1 h
    obtain ⟨hnamed, rfl⟩ := splitName?_eq_some hname
    dsimp only at hafter
    split at hafter
    · rename_i after
      obtain ⟨⟨segment, rest⟩, hsegment, hrest⟩ := Option.bind_eq_some_iff.1 hafter
      obtain ⟨hslash, rfl⟩ := splitFirst?_eq_some hsegment
      obtain ⟨⟨version, hash⟩, hversion, hserved⟩ := Option.bind_eq_some_iff.1 hrest
      have hhyphen := notMem_of_splitLast? hversion
      obtain rfl := splitLast?_eq_some hversion
      obtain ⟨directories, target, rfl, htarget⟩ := exists_leading rest
      simp only [getD_leading htarget] at hserved
      simp only [List.mem_append, List.mem_cons, not_or] at hslash
      split at hserved
      · cases hserved
      · rename_i hvalid
        simp only [List.isEmpty_iff, List.contains_iff_mem, not_or] at hvalid
        obtain ⟨hversion_ne, hhash_ne, htarget_ne, hline⟩ := hvalid
        refine ⟨⟨name, version, hash, directories, target, hnamed, hversion_ne, hslash.1, hhash_ne, hslash.2.2, hhyphen,
          ?_, htarget_ne, htarget⟩, rfl⟩
        rintro cs hcs hmem
        rw [Option.mem_def.1 hcs] at hline
        exact hline hmem
    · cases hafter
  · cases h

theorem text_injective {p q : PikaPath} (h : p.text = q.text) : p = q := by
  have hname := congrArg splitName? (List.cons.inj (List.cons.inj (List.cons.inj h).2).2).2
  simp only [p.named.splitName?_append, q.named.splitName?_append, Option.some.injEq, Prod.mk.injEq, List.cons.injEq,
    true_and] at hname
  have hsegment := congrArg (splitFirst? '/') hname.2
  simp only [splitFirst?_append (slash_notMem_segment _), Option.some.injEq, Prod.mk.injEq] at hsegment
  have hversion := congrArg (splitLast? '-') hsegment.1
  simp only [splitLast?_append p.hash_hyphen, splitLast?_append q.hash_hyphen, Option.some.injEq,
    Prod.mk.injEq] at hversion
  have hrest := congrArg (splitLast? '/') hsegment.2
  simp only [splitLast?_leading p.target_slash, splitLast?_leading q.target_slash] at hrest
  have hdirectories : p.directories = q.directories := by
    simpa [Function.comp_def] using congrArg (Option.map Prod.fst) hrest
  have htarget : p.target = q.target := by
    have hlast := hsegment.2
    rw [hdirectories] at hlast
    exact List.append_cancel_left hlast
  exact PikaPath.ext hname.1 hversion.1 hversion.2 hdirectories htarget

end PikaPath

/-- A path that a registry serves a module from, taken apart. -/
inductive ServedPath : Backend → Type
  | pika (p : PikaPath) : ServedPath pika
  | unpkg (p : UnpkgPath) : ServedPath unpkg

namespace ServedPath

variable {b : Backend}

def text : ServedPath b → String
  | .pika p => String.ofList p.text
  | .unpkg p => String.ofList p.text

def identity : ServedPath b → ModuleIdentity
  | .pika p => p.identity
  | .unpkg p => p.identity

theorem identify_text (p : ServedPath b) : b.identify? p.text = some p.identity := by
  cases p with
  | pika p => rw [text, identify?, String.toList_ofList, p.identify_text, identity]
  | unpkg p => rw [text, identify?, String.toList_ofList, p.identify_text, identity]

theorem exists_of_identify {path : String} {m : ModuleIdentity} (h : b.identify? path = some m) :
    ∃ p : ServedPath b, p.text = path := by
  cases b with
  | pika =>
      obtain ⟨p, hp⟩ := PikaPath.exists_of_identify h
      exact ⟨.pika p, by rw [text, hp, String.ofList_toList]⟩
  | unpkg =>
      obtain ⟨p, hp⟩ := UnpkgPath.exists_of_identify h
      exact ⟨.unpkg p, by rw [text, hp, String.ofList_toList]⟩

theorem text_injective {p q : ServedPath b} (h : p.text = q.text) : p = q := by
  cases p with
  | pika p =>
      cases q with
      | pika q => exact congrArg pika (PikaPath.text_injective (String.ofList_inj.1 h))
  | unpkg p =>
      cases q with
      | unpkg q => exact congrArg unpkg (UnpkgPath.text_injective (String.ofList_inj.1 h))

end ServedPath

/-- A version with hyphens ends at the last one. -/
example : pika.identify? "/-/@scope/pkg@v2.0.0-beta.1-abc/dist/pkg.min.js" =
    some ⟨"@scope/pkg", some "pkg.min.js", "2.0.0-beta.1"⟩ := by
  decide +kernel

end Backend

end WebModules
