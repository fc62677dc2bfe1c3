import Mathlib.Data.List.Pairwise
import WebModules.Proofs.Rewrite.Fill
import WebModules.Proofs.Rewrite.Mirror
import WebModules.Proofs.Script.Uses

/-!
A module whose names were replaced is a module again.  Its tree is the same, and what it depends on
are the names, in the same order and in the same ways.
-/

namespace WebModules.Rewrite

open Script Lexer Cursor Cut Schedule

theorem exists_joined_after {before body : List Char} {pieces : List (List Char × List Char)}
    {rest : List Char} (hbefore : ∀ ch ∈ before, ¬IsQuote ch)
    (hquote : ∀ p ∈ pieces, Quotable p.2) (hjoined : joined pieces rest = before ++ body) :
    ∃ pieces' rest', joined pieces' rest' = body ∧ pieces'.length = pieces.length ∧
      (∀ p ∈ pieces', Quotable p.2) ∧
      spansFrom (utf8Length before) pieces' = spansFrom 0 pieces ∧
      ∀ names, names.length = pieces.length →
        joined (filled pieces names) rest = before ++ joined (filled pieces' names) rest' := by
  cases pieces with
  | nil =>
      refine ⟨[], body, rfl, rfl, hquote, rfl, fun names _ => ?_⟩
      simpa [joined, filled] using hjoined
  | cons piece pieces =>
      obtain ⟨gap, source⟩ := piece
      obtain ⟨quote, r, hq, hsource⟩ := hquote _ (List.mem_cons_self ..)
      obtain rfl : source = quote :: r := hsource
      rw [joined_cons] at hjoined
      have hgap : before <+: gap := by
        obtain ⟨cs, hcs, hbody⟩ | ⟨cs, hcs, -⟩ := List.append_eq_append_iff.1 hjoined
        · cases cs with
          | nil => exact ⟨[], by simpa using hcs⟩
          | cons ch cs =>
              obtain rfl : quote = ch := (List.cons.inj hbody).1
              exact absurd hq (hbefore quote (by simp [hcs]))
        · exact ⟨cs, hcs.symm⟩
      obtain ⟨gap, rfl⟩ := hgap
      rw [List.append_assoc, List.append_cancel_left_eq, ← joined_cons] at hjoined
      refine ⟨(gap, quote :: r) :: pieces, rest, hjoined, rfl, fun p hp => ?_, ?_, fun names hn => ?_⟩
      · obtain rfl | hp := List.mem_cons.1 hp
        · exact ⟨quote, r, hq, rfl⟩
        · exact hquote p (List.mem_cons_of_mem _ hp)
      · simp [spansFrom, utf8Length_append]
      · obtain ⟨name, names, rfl⟩ := List.exists_cons_of_length_eq_add_one hn
        simp [filled_cons, joined_cons]

theorem head?_joined_filled {pieces : List (List Char × List Char)} {names : List String}
    (hquote : ∀ p ∈ pieces, Quotable p.2) (hn : names.length = pieces.length) (rest : List Char) :
    (joined (filled pieces names) rest).head? = (joined pieces rest).head? := by
  cases pieces with
  | nil => rw [filled, List.zipWith_nil_left]
  | cons piece pieces =>
      obtain ⟨gap, source⟩ := piece
      obtain ⟨name, names, rfl⟩ := List.exists_cons_of_length_eq_add_one hn
      obtain ⟨quote, r, -, hsource⟩ := hquote _ (List.mem_cons_self ..)
      obtain rfl : source = quote :: r := hsource
      simp [filled_cons, joined_cons, quoted_eq]

theorem exists_mark {text : String} (h : ¬TwoMarks text) :
    ∃ before body, (before = [] ∨ before = ['\ufeff']) ∧ body.head? ≠ some '\ufeff' ∧
      text.toList = before ++ body := by
  by_cases hmark : text.toList.head? = some '\ufeff'
  · obtain ⟨body, hbody⟩ := List.head?_eq_some_iff.1 hmark
    refine ⟨['\ufeff'], body, .inr rfl, fun hsecond => h ?_, hbody⟩
    obtain ⟨r, rfl⟩ := List.head?_eq_some_iff.1 hsecond
    exact ⟨r, hbody.symm⟩
  · exact ⟨[], text.toList, .inl rfl, hmark, rfl⟩

/-- The place where the first token of a text is looked for. -/
def startOf (text : String) : Cursor :=
  ⟨(withoutByteOrderMark text.toList).2, (withoutByteOrderMark text.toList).1⟩

theorem parse_eq_ok_iff {text : String} {p : Parsed} :
    parse text = .ok p ↔ parseFrom (startOf text).pos (startOf text).rest = .ok p := by
  unfold parse startOf
  dsimp only
  split
  · rename_i q hq
    rw [hq, Except.ok.injEq, Except.ok.injEq]
  · rename_i fault hf
    rw [hf]
    constructor
    · rintro ⟨⟩
    · rintro ⟨⟩

/-- The names for the literals of dependencies. -/
def fillsOf (ds : List Dependency) (name : String → String) : List (Span × String) :=
  ds.map fun d => (d.literal, name d.specifier)

/-- A text and what a rewrite makes of it begin with places that face each other. -/
theorem faces_start {text result : String} (hmarks : ¬TwoMarks text) {ds : List Dependency}
    {cut : Cut} (htext : cut.text = text.toList)
    (hspans : cut.spans = (inSourceOrder ds).map Dependency.literal)
    (hquote : ∀ p ∈ cut.pieces, Quotable p.2) {name : String → String}
    (hname : ∀ d ∈ ds, OneLine (name d.specifier).toList)
    (hresult : result.toList = cut.fill ((inSourceOrder ds).map fun d => name d.specifier)) :
    Faces (fillsOf ds name) (startOf text) (startOf result) := by
  obtain ⟨before, body, hbefore, hbody, hsplit⟩ := exists_mark hmarks
  have hunquoted : ∀ ch ∈ before, ¬IsQuote ch := by
    obtain rfl | rfl := hbefore
    · exact fun ch hch => absurd hch List.not_mem_nil
    · exact fun ch hch => List.mem_singleton.1 hch ▸ by decide
  obtain ⟨pieces, rest, hjoined, hlength, hquote', hspans', hfilled⟩ :=
    exists_joined_after hunquoted hquote (htext.trans hsplit)
  have hnames : ((inSourceOrder ds).map fun d => name d.specifier).length = cut.pieces.length := by
    rw [← spansFrom_length 0, List.length_map, ← List.length_map Dependency.literal, ← hspans]
    rfl
  have hhead := head?_joined_filled hquote' (hnames.trans hlength.symm) rest
  have hstart : startOf text = ⟨body, utf8Length before⟩ := by
    rw [startOf, hsplit, withoutByteOrderMark_append hbefore hbody]
  have hstart' : startOf result = ⟨joined (filled pieces
      ((inSourceOrder ds).map fun d => name d.specifier)) rest, utf8Length before⟩ := by
    rw [hjoined] at hhead
    rw [startOf, hresult, Cut.fill, hfilled _ hnames,
      withoutByteOrderMark_append hbefore (hhead ▸ hbody)]
  rw [hstart, hstart']
  refine ⟨pieces, _, rest, hjoined.symm, rfl, hnames.trans hlength.symm, hquote', ?_, ?_⟩
  · intro n hn
    obtain ⟨d, hd, rfl⟩ := List.mem_map.1 hn
    exact hname d (mem_inSourceOrder.1 hd)
  · intro literal n _
    have hspans'' : spansFrom (utf8Length before) pieces =
        (inSourceOrder ds).map Dependency.literal := hspans'.trans hspans
    rw [hspans'', List.zip_map', fillsOf, List.mem_map, List.mem_map]
    simp only [mem_inSourceOrder]

theorem mirrors_start {fills : List (Span × String)} {c c' : Cursor} (h : Faces fills c c') :
    Mirrors fills { place := c } { place := c' } :=
  ⟨h, .nil, rfl, .none, .none, Nat.le_refl _, rfl, rfl, rfl⟩

/-- A string token that a dependency names stands for the dependency's new name. -/
theorem literal_renewed {p q : Parsed} {ds : List Dependency} {name : String → String}
    (hrenewed : List.Forall₂ (Renewed (fillsOf ds name)) p.tokens.toList q.tokens.toList)
    {use : Use} (hsound : use.Sound ⟨p.tokens.toList, 0⟩) (hd : p.dependency use ∈ ds) :
    (q.dependency use).specifier = name (p.dependency use).specifier := by
  obtain ⟨-, -, -, lexeme, hl, -⟩ := hsound
  obtain ⟨hlt, rfl⟩ := List.getElem?_eq_some_iff.1 hl
  have hlt' : use.source < q.tokens.toList.length := hrenewed.length_eq ▸ hlt
  have hp : p.tokens[use.source]? = some p.tokens.toList[use.source] := by
    rw [← Array.getElem?_toList, List.getElem?_eq_getElem hlt]
  have hq : q.tokens[use.source]? = some q.tokens.toList[use.source] := by
    rw [← Array.getElem?_toList, List.getElem?_eq_getElem hlt']
  have hspan : (p.dependency use).literal = p.tokens.toList[use.source].span :=
    congrArg Literal.span (Parsed.literal_eq hp)
  have hnamed := (hrenewed.get hlt hlt').named (name (p.dependency use).specifier)
    (List.mem_map.2 ⟨_, hd, by rw [hspan]; rfl⟩)
  have hvalue : (q.dependency use).specifier = String.ofList q.tokens.toList[use.source].value :=
    congrArg Literal.value (Parsed.literal_eq hq)
  rw [hvalue, ← String.ofList_toList (s := name _)]
  exact congrArg String.ofList hnamed.2

/-- The order of dependencies is the same over other tokens that keep the order of the nodes. -/
theorem map_inSourceOrder {p q : Parsed} {uses : List Use} {β : Type} {f g : Dependency → β}
    (horder : ∀ u ∈ uses, ∀ v ∈ uses,
      ((p.dependency u).span.start ≤ (p.dependency v).span.start ↔
        (q.dependency u).span.start ≤ (q.dependency v).span.start))
    (hfg : ∀ u ∈ uses, g (q.dependency u) = f (p.dependency u)) :
    (inSourceOrder (uses.map q.dependency)).map g = (inSourceOrder (uses.map p.dependency)).map f := by
  let before (u v : Use) : Bool := (p.dependency u).span.start ≤ (p.dependency v).span.start
  have hp : (uses.mergeSort before).map p.dependency = inSourceOrder (uses.map p.dependency) :=
    List.map_mergeSort fun _ _ _ _ => rfl
  have hq : (uses.mergeSort before).map q.dependency = inSourceOrder (uses.map q.dependency) :=
    List.map_mergeSort fun u hu v hv => decide_eq_decide.2 (horder u hu v hv)
  rw [← hp, ← hq, List.map_map, List.map_map]
  exact List.map_congr_left fun u hu => hfg u (List.mem_mergeSort.1 hu)

/-- Nodes that do not overlap are in the same order over other tokens of the same tree. -/
theorem start_le_start_iff {origin origin' : Nat} {text text' : List Char} {p q : Parsed}
    (hp : parseFrom origin text = .ok p) (hq : parseFrom origin' text' = .ok q) {u v : Use}
    (hu : u.Sound ⟨p.tokens.toList, 0⟩) (hv : v.Sound ⟨p.tokens.toList, 0⟩)
    (hu' : u.Sound ⟨q.tokens.toList, 0⟩) (hv' : v.Sound ⟨q.tokens.toList, 0⟩)
    (hapart : u = v ∨ Apart (p.dependency u).span (p.dependency v).span) :
    (p.dependency u).span.start ≤ (p.dependency v).span.start ↔
      (q.dependency u).span.start ≤ (q.dependency v).span.start := by
  obtain rfl | hapart := hapart
  · exact iff_of_true (Nat.le_refl _) (Nat.le_refl _)
  · have hsources : u.source < v.first ∨ v.source < u.first :=
      hapart.imp (source_lt_first hp hu hv) (source_lt_first hp hv hu)
    rw [start_le_iff hp hu hv hsources, start_le_iff hq hu' hv' hsources]

/-- A rewrite that succeeds fills the names into a cut of the text. -/
theorem rewrite_eq_fill {ε : Type} {resolve : String → Timed (Except ε String)}
    {text result : String} {records : List Record} (hwalk : walk text = .ok records)
    (hmarks : ¬TwoMarks text) {name : String → String}
    (hname : ∀ d ∈ Dependency.ofWalk records,
      (resolve d.specifier).value = .ok (name d.specifier))
    (h : rewrite resolve text = .ok result) :
    ((Dependency.ofWalk records).Pairwise fun a b => Apart a.span b.span) ∧
    ∃ cut : Cut, cut.text = text.toList ∧
      cut.spans = (inSourceOrder (Dependency.ofWalk records)).map Dependency.literal ∧
      (∀ p ∈ cut.pieces, Quotable p.2) ∧
      result.toList =
        cut.fill ((inSourceOrder (Dependency.ofWalk records)).map fun d => name d.specifier) := by
  have hrewrite : rewrite resolve text = walked resolve text records := by simp [rewrite, hwalk]
  rw [hrewrite] at h
  obtain ⟨hdisjoint, hplan⟩ | ⟨-, a, b, hplan⟩ := plan_spec (ε := ε) (walk_span_lt hwalk) rfl
  · obtain ⟨cut, htext, hspans, hquotes⟩ := exists_cut hwalk hdisjoint
    have hliterals : cut.spans =
        (inSourceOrder (Dependency.ofWalk records)).map Dependency.literal := by
      simpa [uncounted, hmarks, Span.later] using hspans
    have hne : ∀ l ∈ cut.literals, l ≠ [] := by
      intro l hl
      obtain ⟨quote, r, -, rfl⟩ := hquotes l hl
      exact List.cons_ne_nil quote r
    refine ⟨hdisjoint, cut, htext, hliterals, fun p hp => hquotes p.2 (List.mem_map_of_mem hp), ?_⟩
    rw [walked_eq hplan, resolveAll_eq_ok fun d hd => hname d (mem_inSourceOrder.1 hd)] at h
    rw [← Except.ok.inj h, fill_eq htext hliterals hne (by simp), String.toList_ofList]
  · rw [walked, hplan] at h
    cases h

end WebModules.Rewrite

namespace WebModules

open Script Schedule Rewrite

theorem dependencies_eq_ok_iff {text : String} {ds : List Dependency} :
    dependencies text = .ok ds ↔ ∃ p, parse text = .ok p ∧
      (Tree.usesOf p.tree.children).map p.dependency = ds := by
  unfold dependencies walk
  cases hparse : parse text with
  | error e =>
      constructor
      · rintro ⟨⟩
      · rintro ⟨p, ⟨⟩, -⟩
  | ok p =>
      have hds := Parsed.ofWalk_outline (withoutByteOrderMark text.toList).1 p
      constructor
      · intro h
        exact ⟨p, rfl, hds.symm.trans (Except.ok.inj h)⟩
      · rintro ⟨q, hq, h⟩
        obtain rfl := Except.ok.inj hq
        exact congrArg Except.ok (hds.trans h)

theorem walk_of_parse {text : String} {p : Parsed} (h : parse text = .ok p) :
    walk text = .ok (p.outline (withoutByteOrderMark text.toList).1).records := by
  unfold walk
  rw [h]
  rfl

/-- A module whose names were replaced is a module again, with the same tree and the same tokens but
for the specifiers.  It depends on the names in the ways in which it depended on the specifiers, in
the order of its walk and in that of its text.  A name must not have a line break in it, and reading
the text must heed the literals. -/
theorem rewrite_rereads {ε : Type} {resolve : String → Timed (Except ε String)}
    {text result : String} {ds : List Dependency} (hds : dependencies text = .ok ds)
    (hmarks : ¬TwoMarks text) {name : String → String}
    (hname : ∀ d ∈ ds, (resolve d.specifier).value = .ok (name d.specifier) ∧
      OneLine (name d.specifier).toList)
    (h : rewrite resolve text = .ok result) {limit : Nat}
    (hheeds : heedsWithin limit (ds.map Dependency.literal) (startOf text))
    (hlimit : limit ≤ readingLimit (startOf text).rest)
    (hlimit' : limit ≤ readingLimit (startOf result).rest) :
    ∃ p q ds', parse text = .ok p ∧ parse result = .ok q ∧ q.tree = p.tree ∧
      List.Forall₂ (Renewed (fillsOf ds name)) p.tokens.toList q.tokens.toList ∧
      dependencies result = .ok ds' ∧
      (ds'.map fun d => (d.kind, d.specifier)) = (ds.map fun d => (d.kind, name d.specifier)) ∧
      ((inSourceOrder ds').map fun d => (d.kind, d.specifier)) =
        (inSourceOrder ds).map fun d => (d.kind, name d.specifier) := by
  obtain ⟨p, hparse, hdsp⟩ := dependencies_eq_ok_iff.1 hds
  have hp := parse_eq_ok_iff.1 hparse
  have hwalk := walk_of_parse hparse
  have hrecords := (Parsed.ofWalk_outline (withoutByteOrderMark text.toList).1 p).trans hdsp
  obtain ⟨hdisjoint, cut, htext, hspans, hquote, hresult⟩ :=
    rewrite_eq_fill hwalk hmarks (fun d hd => (hname d (hrecords ▸ hd)).1) h
  rw [hrecords] at hdisjoint hspans hresult
  -- The readings of the two texts go side by side, so the second one comes to the same tree.
  have hfaces := faces_start hmarks htext hspans hquote (fun d hd => (hname d hd).2) hresult
  have hstrings : (fillsOf ds name).map Prod.fst = ds.map Dependency.literal := by
    simp [fillsOf]
  obtain ⟨s, s', hmirrors, hfaults, htokens, hreads⟩ := (mirrors_kept (fillsOf ds name)).parseFrom hp
    (mirrors_start hfaces) hlimit hlimit' (hstrings ▸ hheeds)
  have hfaults' : s'.faults = [] := by
    have := hmirrors.faults
    rw [hfaults] at this
    exact List.eq_nil_of_length_eq_zero (Nat.le_zero.1 this)
  obtain ⟨q, hq, htree, htokens'⟩ : ∃ q : Parsed,
      parseFrom (startOf result).pos (startOf result).rest = .ok q ∧ q.tree = p.tree ∧
        q.tokens = s'.taken.reverse.toArray := ⟨_, hreads hfaults', rfl, rfl⟩
  have hrenewed : List.Forall₂ (Renewed (fillsOf ds name)) p.tokens.toList q.tokens.toList := by
    rw [htokens, htokens']
    exact List.forall₂_reverse_iff.2 hmirrors.taken
  -- What the tree refers to is known from both.
  have hsound : ∀ use ∈ Tree.usesOf p.tree.children, use.Sound ⟨p.tokens.toList, 0⟩ :=
    Extent.Sound.usesOf _ (parseFrom_sound hp).children
  have hsound' : ∀ use ∈ Tree.usesOf p.tree.children, use.Sound ⟨q.tokens.toList, 0⟩ :=
    htree ▸ Extent.Sound.usesOf _ (parseFrom_sound hq).children
  have hnames : ∀ use ∈ Tree.usesOf p.tree.children,
      ((q.dependency use).kind, (q.dependency use).specifier) =
        ((p.dependency use).kind, name (p.dependency use).specifier) :=
    fun use huse => congrArg (Prod.mk use.kind) (literal_renewed hrenewed (hsound use huse)
      (hdsp ▸ List.mem_map_of_mem huse))
  refine ⟨p, q, _, hparse, parse_eq_ok_iff.2 hq, htree, hrenewed,
    dependencies_eq_ok_iff.2 ⟨q, parse_eq_ok_iff.2 hq, rfl⟩, ?_, ?_⟩
  · rw [htree, ← hdsp, List.map_map, List.map_map]
    exact List.map_congr_left hnames
  · rw [htree, ← hdsp]
    refine map_inSourceOrder (fun u hu v hv => ?_) hnames
    refine start_le_start_iff hp hq (hsound u hu) (hsound v hv) (hsound' u hu) (hsound' v hv) ?_
    by_cases huv : u = v
    · exact .inl huv
    · rw [← hdsp, List.pairwise_map] at hdisjoint
      have : Std.Symm fun u v => Apart (p.dependency u).span (p.dependency v).span :=
        ⟨fun _ _ => Apart.symm⟩
      exact .inr (hdisjoint.forall hu hv huv)

/-- A name with quotes of both kinds and a backslash in it is read as it is. -/
theorem rewrite_rereads_escaped :
    ∃ ds', dependencies "if (/'/.test(b)) import('a\\'\\\\\"')" = .ok ds' ∧
      (ds'.map fun d => (d.kind, d.specifier)) = [(.dynamicImport, "a'\\\"")] := by
  let name (s : String) : String := s ++ "'\\\""
  let ds : List Dependency := [⟨"a", .dynamicImport, ⟨17, 28⟩, ⟨24, 27⟩⟩]
  have hds : dependencies "if (/'/.test(b)) import('a')" = .ok ds := by decide +kernel
  have hmarks : ¬TwoMarks "if (/'/.test(b)) import('a')" := by decide +kernel
  have hname : ∀ d ∈ ds, (⟨0, .ok (name d.specifier)⟩ : Timed (Except Empty String)).value =
      .ok (name d.specifier) ∧ OneLine (name d.specifier).toList := by decide +kernel
  have hrewrite : rewrite (fun s => (⟨0, .ok (name s)⟩ : Timed (Except Empty String)))
      "if (/'/.test(b)) import('a')" = .ok "if (/'/.test(b)) import('a\\'\\\\\"')" := by
    decide +kernel
  have hheeds : heedsWithin 64 (ds.map Dependency.literal)
      (startOf "if (/'/.test(b)) import('a')") := by decide +kernel
  obtain ⟨_, _, ds', -, -, -, -, hds', hnames, -⟩ := rewrite_rereads hds hmarks hname hrewrite hheeds
    (by decide +kernel) (by decide +kernel)
  exact ⟨ds', hds', hnames⟩

/-- An escape that stands for a line break is not written again, and the name ends with its line.
And where a literal was looked at as a part of another token, in an alternative that was given up,
its new name may make that alternative the one that is read. -/
theorem rewrite_unreadable :
    (rewrite (fun s => (⟨0, .ok s⟩ : Timed (Except Empty String))) "import 'a\\nb'" =
        .ok "import 'a\nb'" ∧
      (dependencies "import 'a\\nb'").toOption.isSome ∧
      (dependencies "import 'a\nb'").toOption = none) ∧
    rewrite (fun _ => (⟨0, .ok ")"⟩ : Timed (Except Empty String)))
        "for (const of of /'/.exec(import('x'))) \x7b\x7d" =
      .ok "for (const of of /'/.exec(import(')'))) \x7b\x7d" ∧
    (dependencies "for (const of of /'/.exec(import(')'))) \x7b\x7d").toOption = none := by
  decide +kernel

end WebModules
