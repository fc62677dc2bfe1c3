import WebModules.Proofs.Version

/-!
The order of versions is a linear one.  Identifiers are compared by some of their features, one after another, and by
all that is left of them at last.
-/

namespace WebModules

namespace Version

open Std Text

/-! Comparisons -/

theorem transCmp_on {α β : Type} {cmp : α → α → Ordering} [TransCmp cmp] (f : β → α) :
    TransCmp fun a b => cmp (f a) (f b) where
  eq_swap := OrientedCmp.eq_swap
  isLE_trans := TransCmp.isLE_trans

theorem compareChars_eq : compareChars = compareOn String.ofList := rfl

instance : TransCmp compareChars := compareChars_eq ▸ inferInstance

instance : LawfulEqCmp compareChars where
  compare_self := ReflCmp.compare_self
  eq_of_compare h := String.ofList_inj.1 (LawfulEqCmp.eq_of_compare h)

theorem compareLists_eq (cmp : List Char → List Char → Ordering) : compareLists cmp = List.compareLex cmp := by
  funext as bs
  fun_induction compareLists cmp as bs with
  | case1 | case2 | case3 => rfl
  | case4 a as b bs ih => rw [List.compareLex_cons_cons, ih]

instance {cmp : List Char → List Char → Ordering} [TransCmp cmp] : TransCmp (compareLists cmp) :=
  compareLists_eq cmp ▸ inferInstance

instance {cmp : List Char → List Char → Ordering} [LawfulEqCmp cmp] : LawfulEqCmp (compareLists cmp) :=
  compareLists_eq cmp ▸ inferInstance

/-! Identifiers -/

/-- What the order of numbers goes by: there is nothing of it in a word. -/
def size (cs : List Char) : Nat := if isNumeric cs then cs.length else 0

/-- An identifier without the zeros that a number starts with. -/
def significant (cs : List Char) : List Char := if isNumeric cs then cs.dropWhile (· == '0') else cs

theorem comparePrereleaseIdentifiers_eq : comparePrereleaseIdentifiers =
    compareLex (compareOn fun cs => !isNumeric cs) (compareLex (compareOn size) compareChars) := by
  funext a b
  cases ha : isNumeric a with
  | false =>
      cases hb : isNumeric b with
      | false => simp [comparePrereleaseIdentifiers, compareLex, compareOn, size, ha, hb]
      | true => simp [comparePrereleaseIdentifiers, compareLex, compareOn, ha, hb]; rfl
  | true =>
      cases hb : isNumeric b with
      | false => simp [comparePrereleaseIdentifiers, compareLex, compareOn, ha, hb]; rfl
      | true => simp [comparePrereleaseIdentifiers, compareLex, compareOn, size, ha, hb]

theorem compareBuildIdentifiers_eq : compareBuildIdentifiers =
    compareLex (compareOn fun cs => !isNumeric cs)
      (compareLex (compareOn fun cs => if isNumeric cs then (significant cs).length else 0)
        (compareLex (fun a b => compareChars (significant a) (significant b)) (compareOn size))) := by
  funext a b
  cases ha : isNumeric a with
  | false =>
      cases hb : isNumeric b with
      | false => simp [compareBuildIdentifiers, compareLex, compareOn, size, significant, ha, hb]
      | true => simp [compareBuildIdentifiers, compareLex, compareOn, ha, hb]; rfl
  | true =>
      cases hb : isNumeric b with
      | false => simp [compareBuildIdentifiers, compareLex, compareOn, ha, hb]; rfl
      | true => simp [compareBuildIdentifiers, compareLex, compareOn, size, significant, ha, hb]

instance : TransCmp comparePrereleaseIdentifiers := comparePrereleaseIdentifiers_eq ▸ inferInstance

instance : LawfulEqCmp comparePrereleaseIdentifiers where
  compare_self := ReflCmp.compare_self
  eq_of_compare h := by
    rw [comparePrereleaseIdentifiers_eq, compareLex_eq_eq, compareLex_eq_eq] at h
    exact LawfulEqCmp.eq_of_compare h.2.2

instance : TransCmp compareBuildIdentifiers := by
  have hsignificant : TransCmp fun a b => compareChars (significant a) (significant b) := transCmp_on significant
  rw [compareBuildIdentifiers_eq]
  infer_instance

/-- A number is known by its length and by what stands after its zeros. -/
theorem eq_of_dropWhile {a b : List Char} (hdrop : a.dropWhile (· == '0') = b.dropWhile (· == '0'))
    (hlength : a.length = b.length) : a = b := by
  have hzeros (cs : List Char) : cs.takeWhile (· == '0') = List.replicate (cs.takeWhile (· == '0')).length '0' :=
    List.eq_replicate_of_mem fun c hc => by simpa using List.mem_takeWhile_imp hc
  have hparts (cs : List Char) : cs.takeWhile (· == '0') ++ cs.dropWhile (· == '0') = cs :=
    List.takeWhile_append_dropWhile
  have htake : (a.takeWhile (· == '0')).length = (b.takeWhile (· == '0')).length := by
    have ha := congrArg List.length (hparts a)
    have hb := congrArg List.length (hparts b)
    rw [List.length_append] at ha hb
    rw [hdrop] at ha
    omega
  rw [← hparts a, hzeros a, htake, ← hzeros b, hdrop, hparts b]

instance : LawfulEqCmp compareBuildIdentifiers where
  compare_self := ReflCmp.compare_self
  eq_of_compare {a b} h := by
    rw [compareBuildIdentifiers_eq, compareLex_eq_eq, compareLex_eq_eq, compareLex_eq_eq] at h
    obtain ⟨hclass, -, hdigits, hsize⟩ := h
    have hclass : isNumeric a = isNumeric b := by simpa using LawfulEqOrd.eq_of_compare hclass
    have hdigits := LawfulEqCmp.eq_of_compare hdigits
    have hsize := LawfulEqOrd.eq_of_compare hsize
    rw [significant, significant, hclass] at hdigits
    rw [size, size, hclass] at hsize
    split at hdigits
    · rename_i hnumeric
      rw [if_pos hnumeric, if_pos hnumeric] at hsize
      exact eq_of_dropWhile hdigits hsize
    · exact hdigits

/-! Versions -/

theorem comparePrereleases_eq : comparePrereleases =
    compareLex (compareOn List.isEmpty) (compareLists comparePrereleaseIdentifiers) := by
  funext as bs
  cases as with
  | nil => cases bs <;> rfl
  | cons a as => cases bs <;> rfl

instance : TransCmp comparePrereleases := comparePrereleases_eq ▸ inferInstance

instance : LawfulEqCmp comparePrereleases where
  compare_self := ReflCmp.compare_self
  eq_of_compare h := by
    rw [comparePrereleases_eq, compareLex_eq_eq] at h
    exact LawfulEqCmp.eq_of_compare h.2

theorem order_eq : order = compareLex (compareOn major) (compareLex (compareOn minor) (compareLex (compareOn patch)
    (compareLex (fun v w => comparePrereleases v.prerelease w.prerelease)
      fun v w => compareLists compareBuildIdentifiers v.build w.build))) := rfl

instance : TransCmp order := by
  have hprerelease : TransCmp fun v w : Version => comparePrereleases v.prerelease w.prerelease :=
    transCmp_on prerelease
  have hbuild : TransCmp fun v w : Version => compareLists compareBuildIdentifiers v.build w.build :=
    transCmp_on build
  rw [order_eq]
  infer_instance

instance : LawfulEqCmp order where
  compare_self := ReflCmp.compare_self
  eq_of_compare {v w} h := by
    simp only [order_eq, compareLex_eq_eq] at h
    obtain ⟨hmajor, hminor, hpatch, hprerelease, hbuild⟩ := h
    cases v
    cases w
    cases LawfulEqOrd.eq_of_compare hmajor
    cases LawfulEqOrd.eq_of_compare hminor
    cases LawfulEqOrd.eq_of_compare hpatch
    cases LawfulEqCmp.eq_of_compare hprerelease
    cases LawfulEqCmp.eq_of_compare hbuild
    rfl

end Version

end WebModules
