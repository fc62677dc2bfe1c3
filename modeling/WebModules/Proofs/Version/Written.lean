import Mathlib.Data.List.Induction
import WebModules.Proofs.Version

/-!
No version is written in two ways: a text that is read as a version is the one that is written for it.
-/

namespace WebModules

namespace Version

open Text

/-- Identifiers as they stand after a sign, with dots between them. -/
def signed (sign : Char) : List (List Char) → List Char
  | [] => []
  | id :: ids => sign :: List.intercalate ['.'] (id :: ids)

def written (v : Version) : List Char :=
  List.intercalate ['.'] [Nat.toDigits 10 v.major, Nat.toDigits 10 v.minor, Nat.toDigits 10 v.patch]
    ++ signed '-' v.prerelease ++ signed '+' v.build

theorem identifiers?_eq_some {zeros : Bool} {cs : List Char} {ids : List (List Char)}
    (h : identifiers? zeros cs = some ids) : ids = split '.' cs := by
  rw [identifiers?] at h
  split at h
  · exact (Option.some.inj h).symm
  · cases h

theorem cutOff?_eq_some {sign : Char} {zeros : Bool} {cs : List Char} {cut : List Char × List (List Char)}
    (h : cutOff? sign zeros cs = some cut) : cs = cut.1 ++ signed sign cut.2 := by
  rw [cutOff?] at h
  split at h
  · rename_i front back hsplit
    obtain ⟨-, rfl⟩ := splitFirst?_eq_some hsplit
    obtain ⟨ids, hids, rfl⟩ := Option.map_eq_some_iff.1 h
    obtain rfl := identifiers?_eq_some hids
    obtain ⟨part, parts, hparts⟩ := List.exists_cons_of_ne_nil (split_ne_nil '.' back)
    rw [hparts, signed, ← hparts, intercalate_split]
  · cases h
    exact (List.append_nil _).symm

theorem numeral_concat (cs : List Char) (c : Char) : numeral (cs ++ [c]) = numeral cs * 10 + (c.toNat - '0'.toNat) := by
  rw [numeral, List.foldl_append]
  rfl

theorem digit_lt {c : Char} (h : c.isDigit) : c.toNat - '0'.toNat < 10 := by
  have hhigh := (Char.isDigit_iff_toNat.1 h).2
  have hnine : '9'.toNat = '0'.toNat + 9 := rfl
  omega

theorem toDigits_digit {c : Char} (h : c.isDigit) : Nat.toDigits 10 (c.toNat - '0'.toNat) = [c] := by
  have hchar : 48 + (c.toNat - '0'.toNat) = c.toNat := Nat.add_sub_of_le (Char.isDigit_iff_toNat.1 h).1
  rw [Nat.toDigits_of_lt_base (digit_lt h), List.cons.injEq, and_iff_left rfl, ← Char.toNat_inj,
    Nat.toNat_digitChar_of_lt_ten (digit_lt h), hchar]

/-- A number without zeros at its start is the only way to write it. -/
theorem toDigits_numeral {cs : List Char} (hne : cs ≠ []) (hdigits : ∀ c ∈ cs, c.isDigit)
    (hzero : hasLeadingZero cs = false) : Nat.toDigits 10 (numeral cs) = cs := by
  induction cs using List.reverseRecOn with
  | nil => exact absurd rfl hne
  | append_singleton cs c ih =>
      obtain ⟨hfront, hlast⟩ := List.forall_mem_append.1 hdigits
      have hc := hlast c List.mem_cons_self
      rw [numeral_concat]
      cases cs with
      | nil =>
          have hnone : numeral [] = 0 := rfl
          rw [hnone, Nat.zero_mul, Nat.zero_add]
          exact toDigits_digit hc
      | cons d ds =>
          have hd : d ≠ '0' := by
            rintro rfl
            simp [hasLeadingZero] at hzero
          have hcut := ih (by simp) hfront (by simp [hasLeadingZero, hd])
          have hpos : 0 < numeral (d :: ds) := by
            rw [Nat.pos_iff_ne_zero]
            intro hnone
            rw [hnone] at hcut
            exact hd (List.cons.inj hcut).1.symm
          rw [Nat.mul_comm, ← Nat.toDigits_append_toDigits (by decide) hpos (digit_lt hc), hcut, toDigits_digit hc]

theorem number?_eq_some {cs : List Char} {n : Nat} (h : number? cs = some n) : cs = Nat.toDigits 10 n := by
  rw [number?] at h
  split at h
  · cases h
  · rename_i hplain
    simp only [not_or, List.isEmpty_iff, Bool.not_eq_true', Bool.not_eq_false, Bool.not_eq_true] at hplain
    obtain ⟨hne, hnumeric, hzero⟩ := hplain
    dsimp only at h
    split at h
    · cases h
      exact (toDigits_numeral hne (List.all_eq_true.1 hnumeric) hzero).symm
    · cases h

/-- A version is written in one way only. -/
theorem toList_of_parse? {text : String} {v : Version} (h : parse? text = some v) : text.toList = v.written := by
  rw [parse?_eq] at h
  obtain ⟨⟨front, build⟩, hbuilt, h⟩ := Option.bind_eq_some_iff.1 h
  obtain ⟨⟨core, prerelease⟩, hreleased, h⟩ := Option.bind_eq_some_iff.1 h
  dsimp only at h
  split at h
  · rename_i major minor patch hparts
    obtain ⟨a, ha, h⟩ := Option.bind_eq_some_iff.1 h
    obtain ⟨b, hb, h⟩ := Option.bind_eq_some_iff.1 h
    obtain ⟨c, hc, h⟩ := Option.bind_eq_some_iff.1 h
    cases h
    rw [cutOff?_eq_some hbuilt, cutOff?_eq_some hreleased, written, ← number?_eq_some ha, ← number?_eq_some hb,
      ← number?_eq_some hc, ← hparts, intercalate_split]
  · cases h

theorem parse?_injective {a b : String} {v : Version} (ha : parse? a = some v) (hb : parse? b = some v) : a = b :=
  String.toList_inj.1 ((toList_of_parse? ha).trans (toList_of_parse? hb).symm)

end Version

end WebModules
