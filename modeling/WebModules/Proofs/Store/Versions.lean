import WebModules.Proofs.FileTree.Listed
import WebModules.Proofs.Version.Order
import WebModules.Proofs.Version.Written
import WebModules.Store

/-!
The versions of a package as they are listed.  They are in order, and in the same order however the directory is listed,
unless the two orders that names are compared by are at odds with each other.
-/

namespace WebModules

open Std

namespace Store

open Version

/-! The comparison -/

/-- How names are compared: in the order of versions if they are both semantic, and else in the order of their texts. -/
def versionOrder (a b : String) : Ordering :=
  match parse? a, parse? b with
  | some v, some w => v.order w
  | _, _ => compare a b

variable {a b c : String} {names : List String}

theorem versionOrder_versions {v w : Version} (ha : parse? a = some v) (hb : parse? b = some w) :
    versionOrder a b = v.order w := by
  rw [versionOrder, ha, hb]

theorem versionOrder_other (h : parse? a = none ∨ parse? b = none) : versionOrder a b = compare a b := by
  rw [versionOrder]
  split
  · rename_i ha hb
    simp [ha, hb] at h
  · rfl

theorem compare_eq_lt_iff : compare a b = .lt ↔ a < b := compareOfLessAndEq_eq_lt

theorem versionBefore_iff : versionBefore a b = true ↔ versionOrder a b = .lt := by
  rw [versionBefore]
  split
  · rename_i ha hb
    rw [versionOrder_versions ha hb, beq_iff_eq]
  · rename_i hother
    rw [decide_eq_true_iff, ← compare_eq_lt_iff, versionOrder_other]
    cases ha : parse? a with
    | none => exact .inl rfl
    | some v => exact .inr (Option.eq_none_iff_forall_ne_some.2 fun w hb => hother v w ha hb)

instance : OrientedCmp versionOrder where
  eq_swap {a b} := by
    cases ha : parse? a with
    | none => rw [versionOrder_other (.inl ha), versionOrder_other (.inr ha), OrientedOrd.eq_swap]
    | some v =>
        cases hb : parse? b with
        | none => rw [versionOrder_other (.inr hb), versionOrder_other (.inl hb), OrientedOrd.eq_swap]
        | some w =>
            rw [versionOrder_versions ha hb, versionOrder_versions hb ha]
            exact OrientedCmp.eq_swap

instance : LawfulEqCmp versionOrder where
  eq_of_compare {a b} h := by
    cases ha : parse? a with
    | none => exact LawfulEqOrd.eq_of_compare ((versionOrder_other (.inl ha)).symm.trans h)
    | some v =>
        cases hb : parse? b with
        | none => exact LawfulEqOrd.eq_of_compare ((versionOrder_other (.inr hb)).symm.trans h)
        | some w =>
            rw [versionOrder_versions ha hb] at h
            obtain rfl := LawfulEqCmp.eq_of_compare h
            exact parse?_injective ha hb

theorem eq_of_not_gt (hle : versionOrder a b ≠ .gt) (hge : versionOrder b a ≠ .gt) : a = b :=
  LawfulEqCmp.eq_of_compare (OrientedCmp.isLE_antisymm (Ordering.isLE_iff_ne_gt.2 hle) (Ordering.isLE_iff_ne_gt.2 hge))

/-- A comparison orders some names. -/
structure OrdersAll (cmp : String → String → Ordering) (names : List String) : Prop where
  eq_iff : ∀ a ∈ names, ∀ b ∈ names, cmp a b = .eq ↔ a = b
  swap : ∀ a ∈ names, ∀ b ∈ names, cmp a b = (cmp b a).swap
  trans : ∀ a ∈ names, ∀ b ∈ names, ∀ c ∈ names, cmp a b ≠ .gt → cmp b c ≠ .gt → cmp a c ≠ .gt

/-- No other name stands between two versions that come in one order as versions, and in the other one as texts. -/
def Sortable (names : List String) : Prop :=
  ∀ lower ∈ names, ∀ higher ∈ names, ∀ other ∈ names,
    (parse? lower).isSome → (parse? higher).isSome → parse? other = none →
      versionOrder lower higher = .lt → ¬ (higher < other ∧ other < lower)

instance (names : List String) : Decidable (Sortable names) :=
  inferInstanceAs (Decidable (∀ lower ∈ names, ∀ higher ∈ names, ∀ other ∈ names,
    (parse? lower).isSome → (parse? higher).isSome → parse? other = none →
      versionOrder lower higher = .lt → ¬ (higher < other ∧ other < lower)))

theorem not_circle {α : Type} {cmp : α → α → Ordering} [TransCmp cmp] {a b c : α} (hab : cmp a b = .lt)
    (hbc : cmp b c = .lt) : cmp c a ≠ .lt := by
  intro hca
  have hself := TransCmp.lt_trans (TransCmp.lt_trans hab hbc) hca
  exact absurd (ReflCmp.compare_self.symm.trans hself) (by decide)

/-- The order of texts makes no circle. -/
theorem not_circle_others (hab : parse? a = none ∨ parse? b = none) (hbc : parse? b = none ∨ parse? c = none)
    (hca : parse? c = none ∨ parse? a = none) (hlt : versionOrder a b = .lt) (hlt' : versionOrder b c = .lt) :
    versionOrder c a ≠ .lt := by
  rw [versionOrder_other hab] at hlt
  rw [versionOrder_other hbc] at hlt'
  rw [versionOrder_other hca]
  exact not_circle hlt hlt'

theorem Sortable.not_between (h : Sortable names) {lower higher other : String} (hlower : lower ∈ names)
    (hhigher : higher ∈ names) (hother : other ∈ names) {v w : Version} (hv : parse? lower = some v)
    (hw : parse? higher = some w) (hnone : parse? other = none) (hlt : versionOrder lower higher = .lt)
    (hafter : versionOrder higher other = .lt) : versionOrder other lower ≠ .lt := by
  intro hbefore
  rw [versionOrder_other (.inr hnone), compare_eq_lt_iff] at hafter
  rw [versionOrder_other (.inl hnone), compare_eq_lt_iff] at hbefore
  exact h lower hlower higher hhigher other hother (by simp [hv]) (by simp [hw]) hnone hlt ⟨hafter, hbefore⟩

/-- Names make a circle only around one that is no version, between two versions. -/
theorem Sortable.no_circle (h : Sortable names) (ha : a ∈ names) (hb : b ∈ names) (hc : c ∈ names)
    (hab : versionOrder a b = .lt) (hbc : versionOrder b c = .lt) : versionOrder c a ≠ .lt := by
  -- Two versions and another name are the only case in which both orders take part.
  cases hu : parse? a with
  | none =>
      cases hv : parse? b with
      | none => exact not_circle_others (.inl hu) (.inl hv) (.inr hu) hab hbc
      | some v =>
          cases hw : parse? c with
          | none => exact not_circle_others (.inl hu) (.inr hw) (.inl hw) hab hbc
          | some w => exact fun hca => h.not_between hb hc ha hv hw hu hbc hca hab
  | some u =>
      cases hv : parse? b with
      | none =>
          cases hw : parse? c with
          | none => exact not_circle_others (.inr hv) (.inl hv) (.inl hw) hab hbc
          | some w => exact fun hca => h.not_between hc ha hb hw hu hv hca hab hbc
      | some v =>
          cases hw : parse? c with
          | none => exact h.not_between ha hb hc hu hv hw hab hbc
          | some w =>
              rw [versionOrder_versions hu hv] at hab
              rw [versionOrder_versions hv hw] at hbc
              rw [versionOrder_versions hw hu]
              exact not_circle hab hbc

theorem sortable_iff : Sortable names ↔ OrdersAll versionOrder names := by
  constructor
  · intro h
    refine ⟨fun a _ b _ => LawfulEqCmp.compare_eq_iff_eq, fun a _ b _ => OrientedCmp.eq_swap, ?_⟩
    intro a ha b hb c hc hab hbc hac
    have hca : versionOrder c a = .lt := OrientedCmp.gt_iff_lt.1 hac
    rcases Ordering.isLE_iff_eq_lt_or_eq_eq.1 (Ordering.isLE_iff_ne_gt.2 hab) with hab | hab
    · rcases Ordering.isLE_iff_eq_lt_or_eq_eq.1 (Ordering.isLE_iff_ne_gt.2 hbc) with hbc | hbc
      · exact h.no_circle ha hb hc hab hbc hca
      · obtain rfl := LawfulEqCmp.eq_of_compare hbc
        rw [hab] at hac
        cases hac
    · obtain rfl := LawfulEqCmp.eq_of_compare hab
      exact hbc hac
  · rintro h lower hlower higher hhigher other hother - - hnone hlt ⟨hafter, hbefore⟩
    rw [← compare_eq_lt_iff, ← versionOrder_other (.inr hnone)] at hafter
    rw [← compare_eq_lt_iff, ← versionOrder_other (.inl hnone)] at hbefore
    have hle := h.trans lower hlower higher hhigher other hother (by simp [hlt]) (by simp [hafter])
    exact hle (OrientedCmp.gt_iff_lt.2 hbefore)

/-! Sorting -/

theorem insertVersion_perm (version : String) (sorted : List String) :
    (insertVersion version sorted).Perm (version :: sorted) := by
  fun_induction insertVersion version sorted with
  | case1 => exact .refl _
  | case2 last others hbefore ih => exact (ih.cons last).trans (.swap version last others)
  | case3 last others hbefore => exact .refl _

theorem foldl_insertVersion_perm (names sorted : List String) :
    (names.foldl (fun sorted v => insertVersion v sorted) sorted).Perm (names ++ sorted) := by
  induction names generalizing sorted with
  | nil => exact .refl _
  | cons name names ih =>
      exact (ih _).trans (((insertVersion_perm name sorted).append_left names).trans List.perm_middle)

theorem sortVersions_perm (names : List String) : (sortVersions names).Perm names := by
  have hsorted := foldl_insertVersion_perm names []
  rw [List.append_nil] at hsorted
  exact (List.reverse_perm _).trans hsorted

theorem pairwise_insertVersion (h : OrdersAll versionOrder names) {version : String} (hversion : version ∈ names)
    {sorted : List String} (hmem : ∀ v ∈ sorted, v ∈ names)
    (hsorted : sorted.Pairwise fun a b => versionOrder b a ≠ .gt) :
    (insertVersion version sorted).Pairwise fun a b => versionOrder b a ≠ .gt := by
  fun_induction insertVersion version sorted with
  | case1 => exact List.pairwise_singleton _ _
  | case2 last others hbefore ih =>
      obtain ⟨hlast, hothers⟩ := List.pairwise_cons.1 hsorted
      obtain ⟨hmem_last, hmem_others⟩ := List.forall_mem_cons.1 hmem
      refine List.pairwise_cons.2 ⟨fun v hv => ?_, ih hmem_others hothers⟩
      rcases List.mem_cons.1 ((insertVersion_perm version others).mem_iff.1 hv) with rfl | hv
      · simp [versionBefore_iff.1 hbefore]
      · exact hlast v hv
  | case3 last others hbefore =>
      obtain ⟨hlast, hothers⟩ := List.pairwise_cons.1 hsorted
      obtain ⟨hmem_last, hmem_others⟩ := List.forall_mem_cons.1 hmem
      have hle : versionOrder last version ≠ .gt := by
        rwa [versionBefore_iff, ← OrientedCmp.gt_iff_lt] at hbefore
      refine List.pairwise_cons.2 ⟨fun v hv => ?_, hsorted⟩
      rcases List.mem_cons.1 hv with rfl | hv
      · exact hle
      · exact h.trans v (hmem_others v hv) last hmem_last version hversion (hlast v hv) hle

theorem pairwise_foldl_insertVersion (h : OrdersAll versionOrder names) {versions sorted : List String}
    (hversions : ∀ v ∈ versions, v ∈ names) (hmem : ∀ v ∈ sorted, v ∈ names)
    (hsorted : sorted.Pairwise fun a b => versionOrder b a ≠ .gt) :
    (versions.foldl (fun sorted v => insertVersion v sorted) sorted).Pairwise fun a b => versionOrder b a ≠ .gt := by
  induction versions generalizing sorted with
  | nil => exact hsorted
  | cons version versions ih =>
      obtain ⟨hversion, hversions⟩ := List.forall_mem_cons.1 hversions
      refine ih hversions (fun v hv => ?_) (pairwise_insertVersion h hversion hmem hsorted)
      rcases List.mem_cons.1 ((insertVersion_perm version sorted).mem_iff.1 hv) with rfl | hv
      · exact hversion
      · exact hmem v hv

theorem pairwise_sortVersions (h : OrdersAll versionOrder names) :
    (sortVersions names).Pairwise fun a b => versionOrder a b ≠ .gt :=
  List.pairwise_reverse.2 (pairwise_foldl_insertVersion h (fun _ hv => hv) (by simp) .nil)

theorem eq_or_lt_of_pairwise (h : names.Pairwise fun a b => versionOrder a b ≠ .gt) {i j : Nat} (hi : i < names.length)
    (hj : j < names.length) (hle : versionOrder names[i] names[j] ≠ .gt) : names[i] = names[j] ∨ i < j := by
  rcases Nat.lt_trichotomy i j with hij | rfl | hji
  · exact .inr hij
  · exact .inl rfl
  · have hge := List.pairwise_iff_getElem.1 h j i hj hi hji
    exact .inl (eq_of_not_gt hle hge)

/-- Only names that a comparison orders can stand in order. -/
theorem ordersAll_of_pairwise (h : names.Pairwise fun a b => versionOrder a b ≠ .gt) :
    OrdersAll versionOrder names := by
  refine ⟨fun a _ b _ => LawfulEqCmp.compare_eq_iff_eq, fun a _ b _ => OrientedCmp.eq_swap, ?_⟩
  intro a ha b hb c hc hab hbc
  obtain ⟨i, hi, rfl⟩ := List.getElem_of_mem ha
  obtain ⟨j, hj, rfl⟩ := List.getElem_of_mem hb
  obtain ⟨k, hk, rfl⟩ := List.getElem_of_mem hc
  rcases eq_or_lt_of_pairwise h hi hj hab with heq | hij
  · rwa [heq]
  · rcases eq_or_lt_of_pairwise h hj hk hbc with heq | hjk
    · rwa [← heq]
    · exact List.pairwise_iff_getElem.1 h i k hi hk (hij.trans hjk)

theorem OrdersAll.of_perm {cmp : String → String → Ordering} {names' : List String} (h : OrdersAll cmp names)
    (hperm : names'.Perm names) : OrdersAll cmp names' where
  eq_iff a ha b hb := h.eq_iff a (hperm.mem_iff.1 ha) b (hperm.mem_iff.1 hb)
  swap a ha b hb := h.swap a (hperm.mem_iff.1 ha) b (hperm.mem_iff.1 hb)
  trans a ha b hb c hc := h.trans a (hperm.mem_iff.1 ha) b (hperm.mem_iff.1 hb) c (hperm.mem_iff.1 hc)

/-- Names have one order only in which they can stand. -/
theorem sortVersions_eq {names' : List String} (h : OrdersAll versionOrder names) (hperm : names'.Perm names) :
    sortVersions names' = sortVersions names := by
  have hsorted := pairwise_sortVersions (h.of_perm hperm)
  have hperm' := ((sortVersions_perm names').trans hperm).trans (sortVersions_perm names).symm
  exact hperm'.eq_of_pairwise (fun _ _ _ _ => eq_of_not_gt) hsorted (pairwise_sortVersions h)

/-! Listing -/

variable (s : Store) (name : String) (t : FileTree)

/-- The directories in that of a package, as they are listed. -/
def listed (names : List String) : List String :=
  (t.children names).filter fun version => t.node? (names ++ [version]) == some .directory

theorem mem_listed_iff {version : String} :
    version ∈ listed t names ↔ t.node? (names ++ [version]) = some .directory := by
  rw [listed, List.mem_filter, FileTree.mem_children_iff, beq_iff_eq]
  exact ⟨fun h => h.2, fun h => ⟨by simp [h], h⟩⟩

theorem versions_eq : s.versions name t = match t.findDirectory (Path.pushAll s.root (Layout.nameParts name)) with
    | .error _ => []
    | .ok names => sortVersions (listed t names) := rfl

theorem mem_versions_iff {version : String} : version ∈ s.versions name t ↔
    ∃ names, t.findDirectory (Path.pushAll s.root (Layout.nameParts name)) = .ok names ∧
      t.node? (names ++ [version]) = some .directory := by
  rw [versions_eq]
  cases hfound : t.findDirectory (Path.pushAll s.root (Layout.nameParts name)) with
  | error e => simp
  | ok names => simp [(sortVersions_perm _).mem_iff, mem_listed_iff]

/-- The versions of a package are listed in order, and in one order only, exactly where no other name stands between two
versions that the order of texts has the other way around. -/
theorem versions_sorted :
    (∀ version, version ∈ s.versions name t ↔
      ∃ names, t.findDirectory (Path.pushAll s.root (Layout.nameParts name)) = .ok names ∧
        t.node? (names ++ [version]) = some .directory) ∧
      (Sortable (s.versions name t) ↔ OrdersAll versionOrder (s.versions name t)) ∧
      (Sortable (s.versions name t) ↔ (s.versions name t).Pairwise fun a b => versionOrder a b ≠ .gt) ∧
      (Sortable (s.versions name t) → ∀ t', t.Relisted t' → s.versions name t' = s.versions name t) := by
  refine ⟨fun _ => mem_versions_iff s name t, sortable_iff, ?_, ?_⟩
  · rw [sortable_iff]
    refine ⟨fun h => ?_, ordersAll_of_pairwise⟩
    rw [versions_eq] at h ⊢
    split
    · exact .nil
    · rename_i names hfound
      rw [hfound] at h
      exact pairwise_sortVersions (h.of_perm (sortVersions_perm _).symm)
  · intro h t' hrelisted
    rw [sortable_iff] at h
    rw [versions_eq] at h ⊢
    rw [versions_eq, hrelisted.findDirectory]
    split
    · rfl
    · rename_i names hfound
      rw [hfound] at h
      refine sortVersions_eq (h.of_perm (sortVersions_perm _).symm) ?_
      simp only [listed, hrelisted.node]
      exact (hrelisted.children names).filter _

theorem versions_sorted_mixed :
    let s : Store := ⟨"/store"⟩
    let above := [(["store"], FileNode.directory), (["store", "a"], FileNode.directory)]
    let kept := fun version => (["store", "a", version], FileNode.directory)
    let t : FileTree := ⟨above ++ ["1.10.0", "next", "1.9.0"].map kept⟩
    let t' : FileTree := ⟨above ++ ["1.9.0", "1.10.0", "next"].map kept⟩
    s.versions "a" t = ["1.9.0", "1.10.0", "next"] ∧ Sortable (s.versions "a" t) ∧ t.Relisted t' ∧
      s.versions "a" t' = s.versions "a" t := by
  intro s above kept t t'
  have hversions : s.versions "a" t = ["1.9.0", "1.10.0", "next"] := by decide +kernel
  have hsortable : Sortable (s.versions "a" t) := by
    rw [hversions]
    decide +kernel
  have hrelisted : t.Relisted t' := .of_perm (by decide) (by decide)
  exact ⟨hversions, hsortable, hrelisted, (versions_sorted s "a" t).2.2.2 hsortable t' hrelisted⟩

/-- Three names make a circle, so each order of the directory leads to another list. -/
theorem versions_circle :
    let s : Store := ⟨"/store"⟩
    let above := [(["store"], FileNode.directory), (["store", "a"], FileNode.directory)]
    let kept := fun version => (["store", "a", version], FileNode.directory)
    let t : FileTree := ⟨above ++ ["1.10.0", "1.9", "1.9.0"].map kept⟩
    let t' : FileTree := ⟨above ++ ["1.9", "1.9.0", "1.10.0"].map kept⟩
    t.Relisted t' ∧ s.versions "a" t' ≠ s.versions "a" t ∧
      ¬ (s.versions "a" t).Pairwise (fun a b => versionOrder a b ≠ .gt) ∧
      ¬ OrdersAll versionOrder (s.versions "a" t) := by
  refine ⟨.of_perm (by decide) (by decide), by decide +kernel, by decide +kernel, ?_⟩
  rw [← sortable_iff]
  decide +kernel

end Store

end WebModules
