import WebModules.Proofs.Script.Later.Walk

/-!
A mark of the order of bytes before a text changes nothing but places: the text after the mark is read
as the text is, and what a rewrite makes of it is the mark and what a rewrite makes of the text.
-/

namespace WebModules

open Script

def Dependency.later (n : Nat) (d : Dependency) : Dependency := ⟨d.specifier, d.kind, d.span.later n, d.literal.later n⟩

/-- An error about a text that has `n` more bytes before it. -/
def RewriteError.later {ε : Type} (n : Nat) : RewriteError ε → RewriteError ε
  | .overlap first second => .overlap (first.later n) (second.later n)
  | e => e

theorem Dependency.ofRecord?_later (n : Nat) (r : Record) :
    ofRecord? (r.later n) = (ofRecord? r).map (Dependency.later n) := by
  obtain ⟨kind, span, parent⟩ := r
  cases kind with
  | importDeclaration source typeOnly => cases typeOnly <;> rfl
  | exportNamed source => cases source <;> rfl
  | importCall argument => cases argument <;> rfl
  | _ => rfl

theorem Dependency.ofWalk_later (n : Nat) (records : List Record) :
    ofWalk (records.map (Record.later n)) = (ofWalk records).map (Dependency.later n) := by
  simp only [ofWalk, List.filterMap_map, List.map_filterMap]
  exact congrArg (List.filterMap · records) (funext fun r => ofRecord?_later n r)

namespace Rewrite

open Schedule

variable {ε : Type} (n : Nat)

theorem inSourceOrder_later (ds : List Dependency) :
    inSourceOrder (ds.map (Dependency.later n)) = (inSourceOrder ds).map (Dependency.later n) := by
  refine (List.map_mergeSort fun a _ b _ => ?_).symm
  simp [Dependency.later, Span.later]

theorem firstOverlap?_later (ds : List Dependency) :
    firstOverlap? (ds.map (Dependency.later n)) = (firstOverlap? ds).map (Prod.map (Span.later n) (Span.later n)) := by
  induction ds using firstOverlap?.induct with
  | case1 a b r h => simp [firstOverlap?, Dependency.later, Span.later, h]
  | case2 a b r h ih => simpa [firstOverlap?, Dependency.later, Span.later, h] using ih
  | case3 ds hds =>
      obtain _ | ⟨a, _ | ⟨b, r⟩⟩ := ds
      · rfl
      · rfl
      · exact absurd rfl (hds a b r)

theorem plan_later (records : List Record) :
    plan (ε := ε) (records.map (Record.later n)) = (match plan (ε := ε) records with
      | .ok ds => .ok (ds.map (Dependency.later n))
      | .error e => .error (e.later n)) := by
  unfold plan
  rw [Dependency.ofWalk_later, inSourceOrder_later]
  dsimp only
  rw [firstOverlap?_later]
  cases firstOverlap? (inSourceOrder (Dependency.ofWalk records)) <;> rfl

theorem resolveAll_later (resolve : String → Timed (Except ε String)) (ds : List Dependency) :
    resolveAll resolve (ds.map (Dependency.later n)) = resolveAll resolve ds := by
  unfold resolveAll
  simp [Function.comp_def, Dependency.later]

/-- An error that resolving ends with is about no place. -/
theorem later_of_resolveAll {resolve : String → Timed (Except ε String)} {ds : List Dependency} {e : RewriteError ε}
    (h : resolveAll resolve ds = .error e) : e.later n = e := by
  obtain ⟨specifier, cause, rfl⟩ := resolveAll_eq_error h
  rfl

def Edit.later (n : Nat) (e : Edit) : Edit := ⟨e.span.later n, e.text⟩

theorem applyEdits_later (pos : Nat) (text : List Char) (edits : List Edit) :
    applyEdits (pos + n) text (edits.map (Edit.later n)) = applyEdits pos text edits := by
  induction edits generalizing pos text with
  | nil => rfl
  | cons edit edits ih =>
      simp only [List.map_cons, applyEdits, Edit.later, Span.later, Nat.add_sub_add_right]
      exact congrArg _ (ih edit.span.stop _)

theorem splitBytes_mark (pos : Nat) (cs : List Char) :
    splitBytes (pos + 3) ('\ufeff' :: cs) = ('\ufeff' :: (splitBytes pos cs).1, (splitBytes pos cs).2) := rfl

theorem applyEdits_mark (cs : List Char) (edits : List Edit) :
    applyEdits 0 ('\ufeff' :: cs) (edits.map (Edit.later 3)) = '\ufeff' :: applyEdits 0 cs edits := by
  cases edits with
  | nil => rfl
  | cons edit edits =>
      have hrest := applyEdits_later 3 edit.span.stop
      simp only [List.map_cons, applyEdits, Edit.later, Span.later, Nat.sub_zero, splitBytes_mark, Nat.add_sub_add_right]
      simp only [← hrest]
      rfl

theorem editsOf_mark (cs : List Char) (spans : List Span) (names : List String) :
    editsOf ('\ufeff' :: cs) (spans.map (Span.later 3)) names = (editsOf cs spans names).map (Edit.later 3) := by
  rw [editsOf, editsOf, List.zip_map_left, List.map_map, List.map_map]
  rfl

theorem fill_marked (text : String) (ds : List Dependency) (names : List String) :
    fill (marked text) (ds.map (Dependency.later 3)) names = marked (fill text ds names) := by
  have hspans : (ds.map (Dependency.later 3)).map Dependency.literal = (ds.map Dependency.literal).map (Span.later 3) := by
    rw [List.map_map, List.map_map]
    rfl
  rw [fill_eq_applyEdits, fill_eq_applyEdits, toList_marked, hspans, editsOf_mark, applyEdits_mark]
  exact String.ofList_cons

theorem walked_marked (resolve : String → Timed (Except ε String)) (text : String) (records : List Record) :
    walked resolve (marked text) (records.map (Record.later 3)) = (match walked resolve text records with
      | .ok filled => .ok (marked filled)
      | .error e => .error (e.later 3)) := by
  unfold walked
  rw [plan_later]
  cases plan (ε := ε) records with
  | error e => rfl
  | ok ds =>
      dsimp only [bind, Except.bind]
      rw [resolveAll_later]
      cases hresolved : resolveAll resolve ds with
      | error e => exact congrArg Except.error (later_of_resolveAll 3 hresolved).symm
      | ok names => exact congrArg Except.ok (fill_marked text ds names)

end Rewrite

open Schedule

/-- A mark of the order of bytes before a text that does not begin with one moves all places by its three bytes, and
changes nothing else: not whether and how the text is read, nor what is left and what is replaced in a rewrite. -/
theorem rewrite_marked {ε : Type} (resolve : String → Timed (Except ε String)) {text : String}
    (h : text.toList.head? ≠ some '\ufeff') :
    parse (marked text) = (parse text).map (Parsed.later 3) ∧
    walk (marked text) = (walk text).map (List.map (Record.later 3)) ∧
    rewrite resolve (marked text) = (match rewrite resolve text with
      | .ok filled => .ok (marked filled)
      | .error e => .error (e.later 3)) := by
  refine ⟨parse_marked h, walk_marked h, ?_⟩
  unfold rewrite
  rw [walk_marked h]
  cases walk text with
  | error e => rfl
  | ok records => exact Rewrite.walked_marked resolve text records

theorem rewrite_marked_import :
    "import 'a'".toList.head? ≠ some '\ufeff' ∧
    walk "\ufeffimport 'a'" = .ok [⟨.importDeclaration ⟨"a", ⟨10, 13⟩⟩ false, ⟨3, 13⟩, some 1⟩, ⟨.module, ⟨3, 13⟩, none⟩] ∧
    rewrite (fun _ => (⟨0, .ok "b"⟩ : Timed (Except Empty String))) "\ufeffimport 'a'" = .ok "\ufeffimport 'b'" := by
  have hhead : "import 'a'".toList.head? ≠ some '\ufeff' := by decide
  have hwalk : walk "import 'a'" =
      .ok [⟨.importDeclaration ⟨"a", ⟨7, 10⟩⟩ false, ⟨0, 10⟩, some 1⟩, ⟨.module, ⟨0, 10⟩, none⟩] := by
    decide +kernel
  have hrewrite : rewrite (fun _ => (⟨0, .ok "b"⟩ : Timed (Except Empty String))) "import 'a'" = .ok "import 'b'" := by
    decide +kernel
  obtain ⟨-, hmarked, hfilled⟩ :=
    rewrite_marked (fun _ => (⟨0, .ok "b"⟩ : Timed (Except Empty String))) hhead
  rw [hwalk] at hmarked
  rw [hrewrite] at hfilled
  exact ⟨hhead, hmarked, hfilled⟩

end WebModules
