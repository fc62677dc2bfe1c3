import Mathlib.Data.Nat.Find
import WebModules.Proofs.Script.Nesting.Parse
import WebModules.Proofs.Script.Places
import WebModules.Proofs.Script.Walk

/-!
A walk as the postorder of a tree: the last record is the module, every other record has the number
of the record around it as its parent, and what is within a record stands right before it.
-/

namespace WebModules.Script

/-- The records of a walk belong to the nodes at the given places, which are those that a walk records,
in postorder, and the parent of a record is that of the nearest of these nodes around its own. -/
structure Postorder (p : Parsed) (places : List (List Nat)) (records : List Record) : Prop where
  length_eq : places.length = records.length
  mem_iff : ∀ place, place ∈ places ↔ ∃ t, p.tree.at? place = some t ∧ (p.kind? t.shape).isSome
  sorted : places.Pairwise Precedes
  node : ∀ (i : Nat) place record, places[i]? = some place → records[i]? = some record →
    ∃ t, p.tree.at? place = some t ∧ p.kind? t.shape = some record.kind ∧
      (p.tokens ≠ #[] → record.span = p.spanOf t)
  last : ∀ (i : Nat) record, records[i]? = some record → i + 1 = records.length →
    record.kind = .module ∧ record.parent = none ∧ places[i]? = some []
  parent : ∀ (i : Nat) place record, places[i]? = some place → records[i]? = some record → i + 1 < records.length →
    ∃ j outer, record.parent = some j ∧ i < j ∧ places[j]? = some outer ∧ Nearest places outer place

/-- The second number is that of the parent of the record with the first one, or of a record around the parent. -/
inductive Within (records : List Record) : Nat → Nat → Prop
  | parent {i j : Nat} {record : Record} (here : records[i]? = some record) (parent : record.parent = some j) :
      Within records i j
  | outer {i j k : Nat} {record : Record} (here : records[i]? = some record) (parent : record.parent = some j)
      (around : Within records j k) : Within records i k

theorem Precedes.irrefl (place : List Nat) : ¬ Precedes place place :=
  fun h => h.not_within (List.prefix_refl place)

section Sorted

variable {places : List (List Nat)} (h : places.Pairwise Precedes) {i j : Nat} {a b : List Nat}

include h

theorem precedes_of_lt (ha : places[i]? = some a) (hb : places[j]? = some b) (hij : i < j) : Precedes a b := by
  obtain ⟨hi, rfl⟩ := List.getElem?_eq_some_iff.1 ha
  obtain ⟨hj, rfl⟩ := List.getElem?_eq_some_iff.1 hb
  exact List.pairwise_iff_getElem.1 h i j hi hj hij

theorem lt_of_prefix (ha : places[i]? = some a) (hb : places[j]? = some b) (hba : b <+: a) (hne : b ≠ a) : i < j := by
  obtain hlt | rfl | hlt := Nat.lt_trichotomy i j
  · exact hlt
  · exact absurd (Option.some.inj (hb.symm.trans ha)) hne
  · exact absurd hba (precedes_of_lt h hb ha hlt).not_within

end Sorted

namespace Postorder

variable {p : Parsed} {places : List (List Nat)} {records : List Record} {i j : Nat} {a b : List Nat}

theorem exists_place (h : Postorder p places records) {record : Record} (hr : records[i]? = some record) :
    ∃ place, places[i]? = some place := by
  have := (List.getElem?_eq_some_iff.1 hr).1
  exact ⟨_, List.getElem?_eq_getElem (h.length_eq ▸ this)⟩

theorem exists_record (h : Postorder p places records) (ha : places[i]? = some a) :
    ∃ record, records[i]? = some record := by
  have := (List.getElem?_eq_some_iff.1 ha).1
  exact ⟨_, List.getElem?_eq_getElem (h.length_eq ▸ this)⟩

/-- A record with a parent belongs to a node within that of the parent. -/
theorem nearest (h : Postorder p places records) {record : Record} (hr : records[i]? = some record)
    (hp : record.parent = some j) (ha : places[i]? = some a) :
    ∃ outer, places[j]? = some outer ∧ Nearest places outer a := by
  obtain hlast | hlt := Nat.eq_or_lt_of_le (Nat.succ_le_of_lt (List.getElem?_eq_some_iff.1 hr).1)
  · rw [(h.last i record hr hlast).2.1] at hp
    cases hp
  · obtain ⟨j', outer, hparent, -, houter, hnear⟩ := h.parent i a record ha hr hlt
    obtain rfl := Option.some.inj (hparent.symm.trans hp)
    exact ⟨outer, houter, hnear⟩

/-- One record is within another where the place of its node is within that of the other. -/
theorem within_iff (h : Postorder p places records) (ha : places[i]? = some a) (hb : places[j]? = some b) :
    Within records i j ↔ b <+: a ∧ b ≠ a := by
  constructor
  · intro hw
    induction hw generalizing a with
    | parent here parent =>
        obtain ⟨outer, houter, hnear⟩ := h.nearest here parent ha
        obtain rfl := Option.some.inj (houter.symm.trans hb)
        exact ⟨hnear.around, hnear.ne⟩
    | outer here parent around ih =>
        obtain ⟨outer, houter, hnear⟩ := h.nearest here parent ha
        obtain ⟨hbelow, hne⟩ := ih houter hb
        refine ⟨hbelow.trans hnear.around, fun heq => hne ?_⟩
        exact hbelow.eq_of_length_le (heq ▸ hnear.around.length_le)
  · rintro ⟨hbelow, hne⟩
    -- the node around a node has a shorter place
    induction hn : a.length using Nat.strong_induction_on generalizing i a with
    | _ n ih =>
        obtain ⟨record, hr⟩ := h.exists_record ha
        have hlt := lt_of_prefix h.sorted ha hb hbelow hne
        have hj := (List.getElem?_eq_some_iff.1 hb).1
        obtain ⟨k, outer, hparent, -, houter, hnear⟩ := h.parent i a record ha hr (by rw [← h.length_eq]; omega)
        by_cases heq : b = outer
        · have hkj : ¬ k < j := fun hlt => Precedes.irrefl b (precedes_of_lt h.sorted (heq ▸ houter) hb hlt)
          have hjk : ¬ j < k := fun hlt => Precedes.irrefl b (precedes_of_lt h.sorted hb (heq ▸ houter) hlt)
          obtain rfl : k = j := by omega
          exact .parent hr hparent
        · have hshorter : outer.length < a.length := by
            refine Nat.lt_of_le_of_ne hnear.around.length_le fun hlen => hnear.ne ?_
            exact hnear.around.eq_of_length hlen
          have hbouter := hnear.nearest b (List.mem_of_getElem? hb) hbelow hne
          exact .outer hr hparent (ih outer.length (hn ▸ hshorter) houter hbouter heq rfl)

theorem within_block (h : Postorder p places records) (hj : j < records.length) :
    ∃ k ≤ j, ∀ i, Within records i j ↔ k ≤ i ∧ i < j := by
  obtain ⟨b, hb⟩ : ∃ b, places[j]? = some b := ⟨_, List.getElem?_eq_getElem (h.length_eq ▸ hj)⟩
  have hbefore {i : Nat} (hw : Within records i j) : i < j := by
    have hi : ∃ record, records[i]? = some record := by
      cases hw with
      | parent here | outer here => exact ⟨_, here⟩
    obtain ⟨record, hr⟩ := hi
    obtain ⟨a, ha⟩ := h.exists_place hr
    obtain ⟨hbelow, hne⟩ := (h.within_iff ha hb).1 hw
    exact lt_of_prefix h.sorted ha hb hbelow hne
  have hafter {i i' : Nat} (hw : Within records i j) (hii' : i < i') (hi'j : i' < j) : Within records i' j := by
    have hi'j' : i' < places.length := Nat.lt_trans hi'j (h.length_eq ▸ hj)
    have ha := List.getElem?_eq_getElem (Nat.lt_trans hii' hi'j')
    have ha' := List.getElem?_eq_getElem hi'j'
    obtain ⟨hbelow, -⟩ := (h.within_iff ha hb).1 hw
    have hlater := precedes_of_lt h.sorted ha' hb hi'j
    refine (h.within_iff ha' hb).2 ⟨(precedes_of_lt h.sorted ha ha' hii').prefix_of_between hlater hbelow, ?_⟩
    intro heq
    exact Precedes.irrefl b (by simpa only [heq] using hlater)
  classical
  by_cases hnone : ∃ i, Within records i j
  · refine ⟨Nat.find hnone, Nat.le_of_lt (hbefore (Nat.find_spec hnone)), fun i => ⟨fun hw => ?_, fun ⟨hle, hlt⟩ => ?_⟩⟩
    · exact ⟨Nat.find_min' hnone hw, hbefore hw⟩
    · obtain heq | hlt' := Nat.eq_or_lt_of_le hle
      · exact heq ▸ Nat.find_spec hnone
      · exact hafter (Nat.find_spec hnone) hlt' hlt
  · exact ⟨j, Nat.le_refl j, fun i => ⟨fun hw => absurd ⟨i, hw⟩ hnone, fun ⟨hle, hlt⟩ => by omega⟩⟩

end Postorder

/-- Places in the order of their records, of which the last is the module, make a postorder. -/
theorem Encodes.postorder {p : Parsed} {entries : List (List Nat × Record)} {span : Span}
    (h : Encodes p (Tree.at? · p.tree) 0 none entries)
    (hlast : entries.getLast? = some ([], ⟨.module, span, none⟩)) :
    Postorder p (entries.map Prod.fst) (entries.map Prod.snd) := by
  obtain ⟨found, sorted, node, parent⟩ := h
  have hentry {i : Nat} {place : List Nat} {record : Record} (ha : (entries.map Prod.fst)[i]? = some place)
      (hr : (entries.map Prod.snd)[i]? = some record) : entries[i]? = some (place, record) := by
    rw [List.getElem?_map, Option.map_eq_some_iff] at ha hr
    obtain ⟨e, he, rfl⟩ := ha
    obtain ⟨e', he', rfl⟩ := hr
    obtain rfl := Option.some.inj (he.symm.trans he')
    exact he
  have hroot {i : Nat} (hi : i + 1 = entries.length) : entries[i]? = some ([], ⟨.module, span, none⟩) := by
    rw [← hlast, List.getLast?_eq_getElem?, ← hi, Nat.add_sub_cancel]
  refine ⟨by simp, fun place => ⟨fun hplace => ?_, fun ⟨t, ht, hkind⟩ => found place t ht hkind⟩, sorted, ?_, ?_, ?_⟩
  · obtain ⟨e, he, rfl⟩ := List.mem_map.1 hplace
    obtain ⟨t, ht, hkind, -⟩ := node e he
    exact ⟨t, ht, by simp [hkind]⟩
  · intro i place record ha hr
    exact node _ (List.mem_of_getElem? (hentry ha hr))
  · intro i record hr hi
    rw [List.length_map] at hi
    rw [List.getElem?_map, hroot hi] at hr ⊢
    cases hr
    exact ⟨rfl, rfl, rfl⟩
  · intro i place record ha hr hi
    have hi' : i + 1 < entries.length := by simpa using hi
    have hend := hroot (i := entries.length - 1) (by omega)
    have hendPlace : (entries.map Prod.fst)[entries.length - 1]? = some [] := by
      rw [List.getElem?_map, hend]
      rfl
    -- only the last record belongs to the root of the tree
    have hne : place ≠ [] := by
      rintro rfl
      exact Precedes.irrefl [] (precedes_of_lt sorted ha hendPlace (by omega))
    obtain ⟨-, hnone⟩ | ⟨n, outer, hparent, hn, hnear⟩ := parent _ (List.mem_of_getElem? (hentry ha hr))
    · exact absurd (hnone [] (List.mem_of_getElem? hendPlace) List.nil_prefix).symm hne
    · rw [Nat.zero_add] at hparent
      exact ⟨n, outer, hparent, lt_of_prefix sorted ha hn hnear.around hnear.ne, hn, hnear⟩

def Outline.span : Outline → Span
  | node _ span _ => span

/-- The records of a module are its nodes in postorder. -/
theorem Parsed.encodes_outline {origin : Nat} {text : List Char} {p : Parsed} (h : parseFrom origin text = .ok p) :
    ∃ entries, entries.map Prod.snd = (p.outline origin).records ∧
      entries.getLast? = some ([], ⟨.module, (p.outline origin).span, none⟩) ∧
      Encodes p (Tree.at? · p.tree) 0 none entries := by
  obtain ⟨items, htree, -⟩ := parseFrom_nested h
  obtain ⟨span, houtline, hspan⟩ : ∃ span, p.outline origin = .node .module span (p.outlinesOf items) ∧
      (p.tokens ≠ #[] → span = p.spanOf p.tree) := by
    refine ⟨_, by rw [outline, htree], fun hne => ?_⟩
    have hsize : 0 < p.tokens.size := Array.size_pos_iff.2 hne
    have hfirst := Array.getElem?_eq_getElem hsize
    have hback := Array.getElem?_eq_getElem (Nat.sub_lt hsize Nat.one_pos)
    rw [htree, Array.back?_eq_getElem?, hfirst, hback]
    exact (span_eq hfirst hback).symm
  obtain ⟨entries, hentries, hencodes⟩ := Tree.encodesFrom (p := p) items 0 0 (some (Outline.sizeOfAll (p.outlinesOf items)))
  have hlength : Outline.sizeOfAll (p.outlinesOf items) = entries.length := by
    rw [← Outline.length_recordsOf 0 (some (Outline.sizeOfAll (p.outlinesOf items))), ← hentries, List.length_map]
  refine ⟨entries ++ [([], ⟨.module, span, none⟩)], ?_, by simp [houtline, Outline.span], ?_⟩
  · rw [houtline, Outline.records, Outline.recordsFrom]
    simp [hentries]
  · rw [htree] at hspan ⊢
    rw [hlength] at hencodes
    exact Encodes.enclose (by simpa using hencodes) rfl hspan

theorem Parsed.exists_postorder {origin : Nat} {text : List Char} {p : Parsed} (h : parseFrom origin text = .ok p) :
    ∃ places, Postorder p places (p.outline origin).records ∧
      (p.outline origin).records.getLast? = some ⟨.module, (p.outline origin).span, none⟩ := by
  obtain ⟨entries, hentries, hlast, hencodes⟩ := p.encodes_outline h
  have hpostorder := hencodes.postorder hlast
  rw [hentries] at hpostorder
  refine ⟨entries.map Prod.fst, hpostorder, ?_⟩
  rw [← hentries, List.getLast?_map, hlast]
  rfl

end WebModules.Script
