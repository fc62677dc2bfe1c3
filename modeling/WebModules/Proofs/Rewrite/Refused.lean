import WebModules.Proofs.Rewrite.Fill
import WebModules.Proofs.Schedule.Performs

/-!
A rewrite fails where a name is refused, and the refusal that is reported is the first in time:
that of the specifier with the fewest rounds of waiting, and of two in the same round that of the
one further ahead in the text.  Nothing else of the outcome depends on the waiting, and nodes that
overlap are reported before any name is asked for.
-/

namespace WebModules.Rewrite

open Script Schedule

section Answers

variable {ε : Type} (resolve : String → Timed (Except ε String))

/-- No name is found for the specifier of a dependency. -/
def Refused (d : Dependency) : Prop := ∃ cause, (resolve d.specifier).value = .error cause

/-- The answer for the first dependency is there before that for the second one. -/
def AnsweredBefore (d d' : Dependency) : Prop :=
  (resolve d.specifier).delay < (resolve d'.specifier).delay ∨
    (resolve d.specifier).delay = (resolve d'.specifier).delay ∧ d.span.start < d'.span.start

/-- A failure is the refusal of a dependency that no other refusal comes before. -/
def FirstRefusal (ds : List Dependency) (e : RewriteError ε) : Prop :=
  ∃ d ∈ ds, ∃ cause, (resolve d.specifier).value = .error cause ∧
    e = .unresolved d.specifier cause ∧
    ∀ d' ∈ ds, Refused resolve d' → d' = d ∨ AnsweredBefore resolve d d'

variable {resolve}

theorem not_refused {d : Dependency} (h : ¬Refused resolve d) :
    ∃ name, (resolve d.specifier).value = .ok name := by
  cases hvalue : (resolve d.specifier).value with
  | error cause => exact absurd ⟨cause, hvalue⟩ h
  | ok name => exact ⟨name, rfl⟩

/-- The dependencies in the order of their answers, which is that of the text for answers of the
same round. -/
theorem answered_mergeSort {ds : List Dependency}
    (h : ds.Pairwise fun a b => a.span.start < b.span.start) :
    (ds.mergeSort fun a b => (resolve a.specifier).delay ≤ (resolve b.specifier).delay).Pairwise
      (AnsweredBefore resolve) :=
  Pipeline.keyed_mergeSort (fun d : Dependency => (resolve d.specifier).delay)
    (fun d => Nat.lt_irrefl d.span.start) h

/-- What is known of the answers, in the order in which they are there. -/
theorem byReadiness_answers (ds : List Dependency) :
    Timed.byReadiness (ds.map fun d => (resolve d.specifier).map fun answer => (d.specifier, answer)) =
      (ds.mergeSort fun a b => (resolve a.specifier).delay ≤ (resolve b.specifier).delay).map
        fun d => (resolve d.specifier).map fun answer => (d.specifier, answer) := by
  rw [Timed.byReadiness, List.map_mergeSort]
  exact fun _ _ _ _ => rfl

theorem resolveAll_first {ds : List Dependency} {e : RewriteError ε}
    (hordered : ds.Pairwise fun a b => a.span.start < b.span.start)
    (h : resolveAll resolve ds = .error e) : FirstRefusal resolve ds e := by
  unfold resolveAll firstReady? at h
  dsimp only at h
  rw [byReadiness_answers] at h
  split at h
  · rename_i e' he
    cases h
    obtain ⟨before, answer, after, hsplit, hfailed, hnone⟩ := List.findSome?_eq_some_iff.1 he
    obtain ⟨first, rest, hsorted, rfl, hrest⟩ := List.map_eq_append_iff.1 hsplit
    obtain ⟨d, later, rfl, rfl, rfl⟩ := List.map_eq_cons_iff.1 hrest
    have hmem {d' : Dependency} (hd' : d' ∈ ds) : d' ∈ first ++ d :: later :=
      hsorted ▸ List.mem_mergeSort.2 hd'
    have hd : d ∈ ds := List.mem_mergeSort.1 (hsorted ▸ List.mem_append_right _ List.mem_cons_self)
    cases hvalue : (resolve d.specifier).value with
    | ok name => simp [Timed.map, hvalue] at hfailed
    | error cause =>
      refine ⟨d, hd, cause, hvalue, ?_, fun d' hd' hrefused => ?_⟩
      · simpa [Timed.map, hvalue] using hfailed.symm
      · obtain ⟨cause', hrefused⟩ := hrefused
        have hpairwise := @answered_mergeSort ε resolve ds hordered
        rw [hsorted] at hpairwise
        rcases List.mem_append.1 (hmem hd') with hfirst | hlater
        · -- nothing that is ready before the reported refusal is a refusal
          have := hnone _ (List.mem_map_of_mem hfirst)
          simp [Timed.map, hrefused] at this
        · obtain rfl | hlater := List.mem_cons.1 hlater
          · exact .inl rfl
          · exact .inr ((List.pairwise_cons.1 (List.pairwise_append.1 hpairwise).2.1).1 d' hlater)
  · cases h

/-- Names for all dependencies are found only where none is refused. -/
theorem not_refused_of_resolveAll {ds : List Dependency} {names : List String}
    (h : resolveAll resolve ds = .ok names) : ∀ d ∈ ds, ¬Refused resolve d := by
  rintro d hd ⟨cause, hrefused⟩
  unfold resolveAll firstReady? at h
  dsimp only at h
  rw [byReadiness_answers] at h
  split at h
  · cases h
  · rename_i hnone
    have := List.findSome?_eq_none_iff.1 hnone _ (List.mem_map_of_mem (List.mem_mergeSort.2 hd))
    simp [Timed.map, hrefused] at this

/-- Names that are found do not depend on how long the answers take. -/
theorem resolveAll_congr {resolve' : String → Timed (Except ε String)} {ds : List Dependency}
    (hvalue : ∀ d ∈ ds, (resolve' d.specifier).value = (resolve d.specifier).value)
    (h : ∀ d ∈ ds, ¬Refused resolve d) : resolveAll resolve' ds = resolveAll resolve ds := by
  have hname : ∀ d ∈ ds, (resolve d.specifier).value =
      .ok ((resolve d.specifier).value.toOption.getD "") := by
    intro d hd
    obtain ⟨name, hname⟩ := not_refused (h d hd)
    rw [hname]
    rfl
  rw [@resolveAll_eq_ok ε resolve ds (fun s => (resolve s).value.toOption.getD "") hname]
  exact @resolveAll_eq_ok ε resolve' ds (fun s => (resolve s).value.toOption.getD "")
    fun d hd => (hvalue d hd).trans (hname d hd)

end Answers

theorem firstOverlap?_eq_some {ds : List Dependency} {a b : Span}
    (h : firstOverlap? ds = some (a, b)) :
    ∃ d d', [d, d'].Sublist ds ∧ d.span = a ∧ d'.span = b ∧ d'.span.start < d.span.stop := by
  induction ds using firstOverlap?.induct with
  | case1 d d' r hlt =>
      rw [firstOverlap?, if_pos hlt] at h
      cases h
      exact ⟨d, d', (List.nil_sublist r).cons_cons d' |>.cons_cons d, rfl, rfl, hlt⟩
  | case2 d d' r hlt ih =>
      rw [firstOverlap?, if_neg hlt] at h
      obtain ⟨e, e', hsub, he⟩ := ih h
      exact ⟨e, e', hsub.cons d, he⟩
  | case3 ds hds =>
      obtain _ | ⟨d, _ | ⟨d', r⟩⟩ := ds
      · cases h
      · cases h
      · exact absurd rfl (hds d d' r)

theorem exists_overlap {ds : List Dependency} (hspan : ∀ d ∈ ds, d.span.start < d.span.stop)
    (h : ¬ds.Pairwise fun a b => Apart a.span b.span) :
    ∃ d ∈ ds, ∃ d' ∈ ds, d.span.start ≤ d'.span.start ∧ d'.span.start < d.span.stop ∧
      firstOverlap? (inSourceOrder ds) = some (d.span, d'.span) := by
  have hordered : ∀ d ∈ inSourceOrder ds, d.span.start < d.span.stop :=
    fun d hd => hspan d (mem_inSourceOrder.1 hd)
  rw [← inSourceOrder_pairwise_iff hspan, ← firstOverlap?_eq_none_iff hordered] at h
  obtain ⟨⟨a, b⟩, hoverlap⟩ := Option.ne_none_iff_exists'.1 h
  obtain ⟨d, d', hsub, rfl, rfl, hlt⟩ := firstOverlap?_eq_some hoverlap
  exact ⟨d, mem_inSourceOrder.1 (hsub.subset (by simp)), d',
    mem_inSourceOrder.1 (hsub.subset (by simp)),
    List.pairwise_iff_forall_sublist.1 (inSourceOrder_sorted ds) hsub, hlt, hoverlap⟩

theorem plan_of_overlap {ε : Type} {records : List Record} {a b : Span}
    (h : firstOverlap? (inSourceOrder (Dependency.ofWalk records)) = some (a, b)) :
    plan (ε := ε) records = .error (.overlap a b) := by
  unfold plan
  dsimp only
  rw [h]

end WebModules.Rewrite

namespace WebModules

open Script Schedule Rewrite

theorem exists_walk {text : String} {ds : List Dependency} (h : dependencies text = .ok ds) :
    ∃ records, walk text = .ok records ∧ Dependency.ofWalk records = ds := by
  unfold dependencies at h
  cases hwalk : walk text with
  | error e => rw [hwalk] at h; cases h
  | ok records => rw [hwalk] at h; exact ⟨records, rfl, Except.ok.inj h⟩

end WebModules
