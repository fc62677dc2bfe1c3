import Mathlib.Data.List.Sort
import WebModules.Proofs.Basic
import WebModules.Proofs.Rewrite.Cut

/-!
Replacing the specifiers of a module changes nothing but the literals, and fails for overlapping
nodes exactly where two of them overlap.
-/

namespace WebModules.Rewrite

open Script Schedule Lexer Cursor

/-- Two spans have no byte in common. -/
def Apart (s t : Span) : Prop := s.stop ≤ t.start ∨ t.stop ≤ s.start

theorem Apart.symm {s t : Span} (h : Apart s t) : Apart t s := Or.symm h

theorem mem_inSourceOrder {d : Dependency} {ds : List Dependency} :
    d ∈ inSourceOrder ds ↔ d ∈ ds := List.mem_mergeSort

theorem inSourceOrder_sorted (ds : List Dependency) :
    (inSourceOrder ds).Pairwise fun a b => a.span.start ≤ b.span.start := by
  refine (List.pairwise_mergeSort ?_ ?_ ds).imp fun h => by simpa using h
  · simp only [decide_eq_true_eq]
    exact fun _ _ _ => Nat.le_trans
  · simp only [Bool.or_eq_true, decide_eq_true_eq]
    exact fun _ _ => Nat.le_total _ _

/-- The order of dependencies is also found by inserting one after the other. -/
theorem inSourceOrder_eq (ds : List Dependency) :
    inSourceOrder ds = ds.insertionSort fun a b => a.span.start ≤ b.span.start := by
  have htrans : ∀ a b c : Dependency, decide (a.span.start ≤ b.span.start) → decide (b.span.start ≤ c.span.start) →
      decide (a.span.start ≤ c.span.start) := by
    simp only [decide_eq_true_eq]
    exact fun _ _ _ => Nat.le_trans
  have htotal : ∀ a b : Dependency, (decide (a.span.start ≤ b.span.start) || decide (b.span.start ≤ a.span.start)) := by
    simp only [Bool.or_eq_true, decide_eq_true_eq]
    exact fun _ _ => Nat.le_total _ _
  induction ds with
  | nil => simp [inSourceOrder]
  | cons d ds ih =>
      obtain ⟨before, after, hcons, hrest, hbefore⟩ := List.mergeSort_cons htrans htotal d ds
      have hsorted := List.pairwise_mergeSort htrans htotal (d :: ds)
      rw [hcons] at hsorted
      rw [inSourceOrder, hcons, List.insertionSort_cons, ← ih, inSourceOrder, hrest]
      clear hcons hrest ih
      induction before with
      | nil =>
          cases after with
          | nil => rfl
          | cons b after =>
              have hle := List.rel_of_pairwise_cons hsorted (List.mem_cons_self (a := b))
              exact (List.orderedInsert_cons_of_le _ after (of_decide_eq_true hle)).symm
      | cons b before ih =>
          have hnot : ¬ d.span.start ≤ b.span.start := by simpa using hbefore b List.mem_cons_self
          rw [List.cons_append, List.cons_append, List.orderedInsert_cons, if_neg hnot,
            ← ih (fun c hc => hbefore c (List.mem_cons_of_mem _ hc)) (List.Pairwise.of_cons hsorted)]

section Order

variable {ds : List Dependency} (hspan : ∀ d ∈ ds, d.span.start < d.span.stop)

include hspan

/-- Where each node ends before the next one starts, it ends before all later ones do. -/
theorem firstOverlap?_eq_none_iff :
    firstOverlap? ds = none ↔ ds.Pairwise fun a b => a.span.stop ≤ b.span.start := by
  induction ds using firstOverlap?.induct with
  | case1 a b r h =>
      have hab : ¬(a :: b :: r).Pairwise fun a b => a.span.stop ≤ b.span.start :=
        fun hp => absurd ((List.pairwise_cons.1 hp).1 b (List.mem_cons_self ..)) (Nat.not_le_of_lt h)
      simp [firstOverlap?, h, hab]
  | case2 a b r h ih =>
      rw [firstOverlap?, if_neg h, ih fun d hd => hspan d (List.mem_cons_of_mem _ hd)]
      refine ⟨fun hp => .cons (fun d hd => ?_) hp, fun hp => (List.pairwise_cons.1 hp).2⟩
      obtain rfl | hr := List.mem_cons.1 hd
      · exact Nat.le_of_not_lt h
      · have hb := hspan b (by simp)
        have hbd := (List.pairwise_cons.1 hp).1 d hr
        omega
  | case3 ds hds =>
      match ds with
      | [] => simp [firstOverlap?]
      | [a] => simp [firstOverlap?]
      | a :: b :: r => exact absurd rfl (hds a b r)

theorem inSourceOrder_pairwise_iff :
    ((inSourceOrder ds).Pairwise fun a b => a.span.stop ≤ b.span.start) ↔
      ds.Pairwise fun a b => Apart a.span b.span := by
  have hperm : (inSourceOrder ds).Perm ds := List.mergeSort_perm ds _
  rw [← hperm.pairwise_iff Apart.symm]
  constructor
  · exact fun h => h.imp Or.inl
  · intro h
    refine ((inSourceOrder_sorted ds).and h).imp_of_mem fun ha hb hab => ?_
    have := hspan _ (hperm.mem_iff.1 hb)
    obtain hab' | hba := hab.2
    · exact hab'
    · have := hab.1
      omega

/-- Comparing neighbours finds an overlap whenever two nodes have one. -/
theorem plan_spec {ε : Type} {records : List Record} (hds : Dependency.ofWalk records = ds) :
    ((ds.Pairwise fun a b => Apart a.span b.span) ∧
      plan (ε := ε) records = .ok (inSourceOrder ds)) ∨
    (¬(ds.Pairwise fun a b => Apart a.span b.span) ∧
      ∃ a b, plan (ε := ε) records = .error (.overlap a b)) := by
  have hordered : ∀ d ∈ inSourceOrder ds, d.span.start < d.span.stop :=
    fun d hd => hspan d (mem_inSourceOrder.1 hd)
  rw [← inSourceOrder_pairwise_iff hspan, ← firstOverlap?_eq_none_iff hordered]
  unfold plan
  rw [hds]
  cases hf : firstOverlap? (inSourceOrder ds) with
  | none => exact .inl ⟨rfl, by simp [hf]⟩
  | some overlap => exact .inr ⟨by simp, overlap.1, overlap.2, by simp [hf]⟩

end Order

/-- A name that is not found is no overlap. -/
theorem resolveAll_eq_error {ε : Type} {resolve : String → Timed (Except ε String)}
    {ds : List Dependency} {e : RewriteError ε} (h : resolveAll resolve ds = .error e) :
    ∃ specifier cause, e = .unresolved specifier cause := by
  unfold resolveAll at h
  dsimp only at h
  split at h
  · rename_i e' he
    cases h
    unfold firstReady? at he
    obtain ⟨⟨delay, specifier, answer⟩, -, hfailed⟩ := List.exists_of_findSome?_eq_some he
    cases answer with
    | error cause => exact ⟨specifier, cause, (Option.some.inj hfailed).symm⟩
    | ok => cases hfailed
  · cases h

theorem resolveAll_eq_ok {ε : Type} {resolve : String → Timed (Except ε String)}
    {ds : List Dependency} {name : String → String}
    (h : ∀ d ∈ ds, (resolve d.specifier).value = .ok (name d.specifier)) :
    resolveAll resolve ds = .ok (ds.map fun d => name d.specifier) := by
  unfold resolveAll
  dsimp only
  split
  · rename_i e he
    unfold firstReady? Timed.byReadiness at he
    obtain ⟨answer, ha, hfailed⟩ := List.exists_of_findSome?_eq_some he
    obtain ⟨d, hd, rfl⟩ := List.mem_map.1 (List.mem_mergeSort.1 ha)
    simp [Timed.map, h d hd] at hfailed
  · rename_i hready
    clear hready
    refine congrArg Except.ok ?_
    induction ds with
    | nil => rfl
    | cons d ds ih =>
        have hds := ih (fun d hd => h d (List.mem_cons_of_mem _ hd))
        simp_all [Timed.map, Except.toOption]

theorem ofRecord?_eq_some {r : Record} {d : Dependency} (h : Dependency.ofRecord? r = some d) :
    r.kind.literal? = some ⟨d.specifier, d.literal⟩ ∧ d.span = r.span := by
  unfold Dependency.ofRecord? at h
  dsimp only at h
  split at h <;> simp_all [NodeKind.literal?] <;> subst h <;> exact ⟨rfl, rfl⟩

/-- Texts that begin with two marks of the order of bytes. -/
def TwoMarks (text : String) : Prop := ['\ufeff', '\ufeff'] <+: text.toList

instance (text : String) : Decidable (TwoMarks text) :=
  inferInstanceAs (Decidable (['\ufeff', '\ufeff'] <+: text.toList))

/-- The bytes that a walk of the text leaves out of account. -/
def uncounted (text : String) : Nat := if TwoMarks text then 3 else 0

theorem withoutByteOrderMark_append {before body : List Char}
    (hbefore : before = [] ∨ before = ['\ufeff']) (hbody : body.head? ≠ some '\ufeff') :
    withoutByteOrderMark (before ++ body) = (utf8Length before, body) := by
  obtain rfl | rfl := hbefore
  · rw [List.nil_append, withoutByteOrderMark]
    · rfl
    · rintro r rfl
      exact hbody rfl
    · rintro r rfl
      exact hbody rfl
  · rw [List.cons_append, List.nil_append, withoutByteOrderMark]
    · rfl
    · rintro r rfl
      exact hbody rfl

/-- A mark of the order of bytes is counted, but a second one is not. -/
theorem withoutByteOrderMark_reaches (text : String) :
    Reaches ⟨text.toList, 0⟩ ⟨(withoutByteOrderMark text.toList).2,
      (withoutByteOrderMark text.toList).1 + uncounted text⟩ := by
  unfold withoutByteOrderMark
  split
  · rename_i r heq
    have hmarks : TwoMarks text := ⟨r, heq.symm⟩
    rw [uncounted, if_pos hmarks]
    exact ⟨['\ufeff', '\ufeff'], heq, rfl⟩
  · rename_i r hr heq
    have hmarks : ¬TwoMarks text := by
      rintro ⟨rest, hrest⟩
      rw [heq] at hrest
      cases hrest
      exact hr rest rfl
    rw [uncounted, if_neg hmarks]
    exact ⟨['\ufeff'], heq, rfl⟩
  · rename_i h _
    have hmarks : ¬TwoMarks text := fun ⟨rest, hrest⟩ => h rest hrest.symm
    rw [uncounted, if_neg hmarks]
    exact .refl _

theorem walk_eq_ok {text : String} {records : List Record} (h : walk text = .ok records) :
    ∃ p, parseFrom (withoutByteOrderMark text.toList).1 (withoutByteOrderMark text.toList).2 = .ok p ∧
      records = (p.outline (withoutByteOrderMark text.toList).1).records := by
  unfold walk parse at h
  dsimp only at h
  split at h
  · rename_i p hp
    cases h
    exact ⟨p, hp, rfl⟩
  · cases h

/-- What a module depends on stands in its text, within the node that depends on it.  After two
marks the place where it stands is later than the walk has it. -/
theorem walk_stands {text : String} {records : List Record} (h : walk text = .ok records)
    {d : Dependency} (hd : d ∈ Dependency.ofWalk records) :
    Literal.Stands ⟨text.toList, 0⟩ (d.literal.later (uncounted text)) ∧
      d.span.contains d.literal := by
  obtain ⟨r, hr, hrd⟩ := List.mem_filterMap.1 hd
  obtain ⟨hliteral, hspan⟩ := ofRecord?_eq_some hrd
  obtain ⟨p, hp, rfl⟩ := walk_eq_ok h
  have hsourced := Outline.records_sourced (parseFrom_sound hp) r hr
  obtain ⟨hstands, hcontains⟩ := hsourced.stands hp hliteral
  rw [hspan]
  exact ⟨(hstands.later _).of_reaches (withoutByteOrderMark_reaches text), hcontains⟩

theorem walk_span_lt {text : String} {records : List Record} (h : walk text = .ok records) :
    ∀ d ∈ Dependency.ofWalk records, d.span.start < d.span.stop := by
  intro d hd
  obtain ⟨hstands, hcontains⟩ := walk_stands h hd
  have := hstands.start_lt
  simp only [Span.contains, Span.later, Bool.and_eq_true, decide_eq_true_eq] at this hcontains
  omega

/-- The literals of disjoint nodes are disjoint as well, so the text has a cut into them. -/
theorem exists_cut {text : String} {records : List Record} (h : walk text = .ok records)
    (hdisjoint : (Dependency.ofWalk records).Pairwise fun a b => Apart a.span b.span) :
    ∃ cut : Cut, cut.text = text.toList ∧
      cut.spans = (inSourceOrder (Dependency.ofWalk records)).map
        (fun d => d.literal.later (uncounted text)) ∧
      ∀ l ∈ cut.literals, ∃ quote r, (quote = '\'' ∨ quote = '"') ∧ l = quote :: r := by
  have hstands (d : Dependency) (hd : d ∈ inSourceOrder (Dependency.ofWalk records)) :=
    walk_stands h (mem_inSourceOrder.1 hd)
  have hordered : ((inSourceOrder (Dependency.ofWalk records)).map
      fun d => d.literal.later (uncounted text)).Pairwise fun s t => s.stop ≤ t.start := by
    rw [List.pairwise_map]
    refine ((inSourceOrder_pairwise_iff (walk_span_lt h)).2 hdisjoint).imp_of_mem
      fun {a b} ha hb hab => ?_
    have hina := (hstands a ha).2
    have hinb := (hstands b hb).2
    simp only [Span.contains, Span.later, Bool.and_eq_true, decide_eq_true_eq] at hina hinb ⊢
    omega
  obtain ⟨pieces, rest, hjoined, hspans, hquotes⟩ := exists_pieces (.refl ⟨text.toList, 0⟩)
    (fun s hs => by
      obtain ⟨d, hd, rfl⟩ := List.mem_map.1 hs
      exact (hstands d hd).1)
    (fun s _ => Nat.zero_le s.start) hordered
  refine ⟨⟨pieces, rest⟩, hjoined, hspans, fun l hl => ?_⟩
  obtain ⟨p, hp, rfl⟩ := List.mem_map.1 hl
  exact hquotes p hp

theorem Cut.ext_of_spans {cut other : Cut} (htext : other.text = cut.text)
    (hspans : other.spans = cut.spans) : other = cut := by
  obtain ⟨hpieces, hrest⟩ := pieces_unique hspans htext
  cases other
  cases cut
  exact Cut.mk.injEq _ _ _ _ ▸ ⟨hpieces, hrest⟩

theorem walked_eq {ε : Type} {resolve : String → Timed (Except ε String)} {text : String}
    {records : List Record} {ds : List Dependency} (h : plan (ε := ε) records = .ok ds) :
    walked resolve text records = (resolveAll resolve ds).map (fill text ds) := by
  unfold walked
  rw [h]
  rfl

theorem walked_ne_overlap {ε : Type} {resolve : String → Timed (Except ε String)} {text : String}
    {records : List Record} {ds : List Dependency} (h : plan (ε := ε) records = .ok ds)
    (first second : Span) : walked resolve text records ≠ .error (.overlap first second) := by
  rw [walked_eq h]
  intro hoverlap
  cases hr : resolveAll resolve ds with
  | error e =>
      obtain ⟨specifier, cause, rfl⟩ := resolveAll_eq_error hr
      rw [hr] at hoverlap
      cases hoverlap
  | ok names =>
      rw [hr] at hoverlap
      cases hoverlap

end WebModules.Rewrite

namespace WebModules

open Script Schedule Rewrite

/-- A text that does not parse is reported, and so are overlapping nodes.  Otherwise the text has
one cut into the literals that it depends on, in the order of the text, and unless the text begins
with two marks of the order of bytes, the names take the place of these literals and all else
stays. -/
theorem rewrite_fills_literals {ε : Type} (resolve : String → Timed (Except ε String))
    (text : String) :
    (∀ e, walk text = .error e → rewrite resolve text = .error (.syntaxError e)) ∧
    ∀ records, walk text = .ok records →
      ((∃ a b, rewrite resolve text = .error (.overlap a b)) ↔
        ¬(Dependency.ofWalk records).Pairwise fun a b => Apart a.span b.span) ∧
      (((Dependency.ofWalk records).Pairwise fun a b => Apart a.span b.span) →
        ∃ cut : Cut, cut.text = text.toList ∧
          cut.spans = (inSourceOrder (Dependency.ofWalk records)).map
            (fun d => d.literal.later (uncounted text)) ∧
          (∀ other : Cut, other.text = cut.text → other.spans = cut.spans → other = cut) ∧
          (∀ l ∈ cut.literals, ∃ quote r, (quote = '\'' ∨ quote = '"') ∧ l = quote :: r) ∧
          (¬TwoMarks text → ∀ name : String → String,
            (∀ d ∈ Dependency.ofWalk records,
              (resolve d.specifier).value = .ok (name d.specifier)) →
            rewrite resolve text = .ok (String.ofList (cut.fill
              ((inSourceOrder (Dependency.ofWalk records)).map fun d => name d.specifier))))) := by
  refine ⟨fun e he => by simp [rewrite, he], fun records h => ?_⟩
  have hrewrite : rewrite resolve text = walked resolve text records := by simp [rewrite, h]
  obtain ⟨hdisjoint, hplan⟩ | ⟨hoverlap, a, b, hplan⟩ := plan_spec (ε := ε) (walk_span_lt h) rfl
  · refine ⟨⟨fun ⟨a, b, hab⟩ => ?_, fun hn => absurd hdisjoint hn⟩, fun _ => ?_⟩
    · exact absurd (hrewrite ▸ hab) (walked_ne_overlap hplan a b)
    · obtain ⟨cut, htext, hspans, hquotes⟩ := exists_cut h hdisjoint
      refine ⟨cut, htext, hspans, fun other => Cut.ext_of_spans, hquotes,
        fun hmarks name hname => ?_⟩
      have hnames := resolveAll_eq_ok fun d hd => hname d (mem_inSourceOrder.1 hd)
      have hliterals : cut.spans =
          (inSourceOrder (Dependency.ofWalk records)).map Dependency.literal := by
        simpa [uncounted, hmarks, Span.later] using hspans
      rw [hrewrite, walked_eq hplan, hnames]
      refine congrArg Except.ok (fill_eq htext hliterals (fun l hl => ?_) (by simp))
      obtain ⟨quote, r, -, rfl⟩ := hquotes l hl
      exact List.cons_ne_nil quote r
  · have herror : rewrite resolve text = .error (.overlap a b) := by
      rw [hrewrite, walked, hplan]
      rfl
    exact ⟨⟨fun _ => hoverlap, fun _ => ⟨a, b, herror⟩⟩, fun hd => absurd hd hoverlap⟩

/-- The second of two calls is visited first, and both names are longer than what they replace. -/
theorem rewrite_fills_literals_loop :
    ∃ (records : List Record) (cut : Cut),
      walk "do import('a'); while (import(\"b\"))" = .ok records ∧
      (Dependency.ofWalk records).map Dependency.specifier = ["b", "a"] ∧
      cut.text = "do import('a'); while (import(\"b\"))".toList ∧
      rewrite (fun s => (⟨s.length, .ok (s ++ "'")⟩ : Timed (Except Empty String)))
          "do import('a'); while (import(\"b\"))" =
        .ok (String.ofList (cut.fill ["a'", "b'"])) := by
  have hwalk : (walk "do import('a'); while (import(\"b\"))").map Dependency.ofWalk =
      .ok [⟨"b", .dynamicImport, ⟨23, 34⟩, ⟨30, 33⟩⟩, ⟨"a", .dynamicImport, ⟨3, 14⟩, ⟨10, 13⟩⟩] := by
    decide +kernel
  cases h : walk "do import('a'); while (import(\"b\"))" with
  | error e =>
      rw [h] at hwalk
      cases hwalk
  | ok records =>
      rw [h] at hwalk
      have hds := Except.ok.inj hwalk
      obtain ⟨-, hfilled⟩ := (rewrite_fills_literals
        (fun s => (⟨s.length, .ok (s ++ "'")⟩ : Timed (Except Empty String))) _).2 records h
      obtain ⟨cut, htext, -, -, -, hrewrite⟩ := hfilled (by rw [hds]; simp [Apart])
      refine ⟨records, cut, rfl, by rw [hds]; rfl, htext, ?_⟩
      have horder : (inSourceOrder (Dependency.ofWalk records)).map (fun d => d.specifier ++ "'") =
          ["a'", "b'"] := by
        rw [hds]
        simp [inSourceOrder, List.mergeSort, List.MergeSort.Internal.splitInTwo]
      rw [← horder]
      exact hrewrite (by decide) (fun s => s ++ "'") fun _ _ => rfl

/-- After two marks the literal is taken to begin within the word before it. -/
theorem rewrite_two_marks :
    rewrite (fun _ => (⟨0, .ok "b"⟩ : Timed (Except Empty String))) "\ufeff\ufeffimport 'a'" =
      .ok "\ufeff\ufeffimporbr'a'" := by
  decide +kernel

end WebModules
