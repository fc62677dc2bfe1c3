import Mathlib.Data.List.Sort
import Mathlib.Order.Basic
import WebModules.Dictionary
import WebModules.Proofs.Basic

/-!
What a dictionary has for a name, and which names and values it has.
-/

namespace WebModules

namespace Dictionary

variable {α : Type} {d : Dictionary α} {name other : String} {value : α}

theorem nodup_keys (d : Dictionary α) : d.keys.Nodup := by
  apply List.pairwise_map.2
  apply d.ordered.imp
  intro a b hlt heq
  rw [heq] at hlt
  exact String.lt_irrefl _ hlt

theorem get?_eq_some_iff : d.get? name = some value ↔ (name, value) ∈ d.entries :=
  lookup_eq_some_iff_mem d.nodup_keys

theorem mem_keys_iff : name ∈ d.keys ↔ ∃ value, d.get? name = some value := by
  constructor
  · intro h
    obtain ⟨⟨key, value⟩, hentry, rfl⟩ := List.mem_map.1 h
    exact ⟨value, get?_eq_some_iff.2 hentry⟩
  · rintro ⟨value, h⟩
    exact mem_keys_of_get? h

theorem mem_values_iff : value ∈ d.values ↔ ∃ name, d.get? name = some value := by
  constructor
  · intro h
    obtain ⟨⟨key, found⟩, hentry, rfl⟩ := List.mem_map.1 h
    exact ⟨key, get?_eq_some_iff.2 hentry⟩
  · rintro ⟨name, h⟩
    exact List.mem_map.2 ⟨(name, value), get?_eq_some_iff.1 h, rfl⟩

theorem get?_filter (test : String → Bool) (d : Dictionary α) (name : String) :
    (d.filter test).get? name = if test name then d.get? name else none := by
  ext value
  rw [get?_eq_some_iff, filter, List.mem_filter]
  by_cases h : test name
  · simp [h, get?_eq_some_iff]
  · simp [h]

theorem get?_erase (d : Dictionary α) (name other : String) :
    (d.erase other).get? name = if name = other then none else d.get? name := by
  rw [erase, get?_filter]
  by_cases h : name = other <;> simp [h]

theorem ext_get? {d d' : Dictionary α} (h : ∀ name, d.get? name = d'.get? name) : d = d' := by
  have hmem (entry : String × α) : entry ∈ d.entries ↔ entry ∈ d'.entries := by
    rw [← get?_eq_some_iff, h, get?_eq_some_iff]
  have hperm : d.entries.Perm d'.entries :=
    (List.perm_ext_iff_of_nodup (List.Nodup.of_map _ d.nodup_keys) (List.Nodup.of_map _ d'.nodup_keys)).2 hmem
  have hentries : d.entries = d'.entries :=
    hperm.eq_of_pairwise (fun a b _ _ hab hba => absurd hba (String.lt_asymm hab)) d.ordered d'.ordered
  cases d
  cases d'
  rwa [Dictionary.mk.injEq]

/-! Entries in their order -/

theorem insertEntry_of_lt {entries : List (String × α)} (h : ∀ e ∈ entries, e.1 < name) (value : α) :
    insertEntry name value entries = entries ++ [(name, value)] := by
  induction entries with
  | nil => rfl
  | cons entry entries ih =>
      obtain ⟨key, old⟩ := entry
      have hkey : key < name := h (key, old) List.mem_cons_self
      have hrest := ih fun e he => h e (List.mem_cons_of_mem _ he)
      have hne : name ≠ key := by
        rintro rfl
        exact String.lt_irrefl _ hkey
      rw [insertEntry, if_neg (String.lt_asymm hkey), if_neg hne, hrest, List.cons_append]

theorem entries_foldl_insert {d : Dictionary α} {entries : List (String × α)}
    (h : (d.entries ++ entries).Pairwise fun a b => a.1 < b.1) :
    (entries.foldl (fun d e => d.insert e.1 e.2) d).entries = d.entries ++ entries := by
  induction entries generalizing d with
  | nil => simp
  | cons entry entries ih =>
      have hinsert : (d.insert entry.1 entry.2).entries = d.entries ++ [entry] := by
        apply insertEntry_of_lt
        intro e he
        exact (List.pairwise_append.1 h).2.2 e he entry List.mem_cons_self
      rw [List.foldl_cons, ih, hinsert, List.append_assoc, List.singleton_append]
      rw [hinsert, List.append_assoc]
      exact h

theorem ofList_entries (d : Dictionary α) : ofList d.entries = d := by
  have hentries : (ofList d.entries).entries = d.entries := entries_foldl_insert d.ordered
  obtain ⟨entries, ordered⟩ := d
  rw [Dictionary.mk.injEq, hentries]

/-! Entries that are set -/

theorem lookup_entry_cons (key name : String) (value : α) (entries : List (String × α)) :
    ((key, value) :: entries).lookup name = if key = name then some value else entries.lookup name := by
  by_cases hk : key = name
  · simp [hk]
  · have hne : (name == key) = false := beq_eq_false_iff_ne.2 (Ne.symm hk)
    simp [List.lookup_cons, hne, hk]

theorem lookup_insertEntry (name other : String) (value : α) (entries : List (String × α)) :
    (insertEntry name value entries).lookup other = if name = other then some value else entries.lookup other := by
  induction entries with
  | nil => exact lookup_entry_cons name other value []
  | cons entry entries ih =>
      obtain ⟨key, old⟩ := entry
      rw [insertEntry]
      split
      · exact lookup_entry_cons name other value _
      · split
        · rename_i hname
          rw [lookup_entry_cons, lookup_entry_cons, hname]
          by_cases ho : key = other <;> simp [ho]
        · rename_i hne
          rw [lookup_entry_cons, lookup_entry_cons, ih]
          by_cases hk : key = other
          · rw [if_pos hk, if_neg fun hn => hne (hn.trans hk.symm), if_pos hk]
          · rw [if_neg hk, if_neg hk]

theorem get?_insert (d : Dictionary α) (name other : String) (value : α) :
    (d.insert name value).get? other = if name = other then some value else d.get? other :=
  lookup_insertEntry name other value d.entries

/-- Entries that are set one after the other, each to what comes of it and of what was there. -/
theorem get?_foldl_insert (join : Option α → α → α) {entries : List (String × α)}
    (hn : (entries.map Prod.fst).Nodup) (d : Dictionary α) (name : String) :
    (entries.foldl (fun d e => d.insert e.1 (join (d.get? e.1) e.2)) d).get? name =
      match entries.lookup name with
      | none => d.get? name
      | some value => some (join (d.get? name) value) := by
  induction entries generalizing d with
  | nil => rfl
  | cons entry entries ih =>
      obtain ⟨key, value⟩ := entry
      rw [List.map_cons, List.nodup_cons] at hn
      rw [List.foldl_cons, ih hn.2, get?_insert, lookup_entry_cons]
      by_cases hk : key = name
      · subst hk
        have hnone : entries.lookup key = none := by
          rw [List.lookup_eq_none_iff]
          intro e he
          have hmem : e.1 ∈ entries.map Prod.fst := List.mem_map_of_mem he
          simpa using fun heq : key = e.1 => hn.1 (heq ▸ hmem)
        simp [hnone]
      · simp [hk]

theorem get?_ofList {entries : List (String × α)} (hn : (entries.map Prod.fst).Nodup) (name : String) :
    (ofList entries).get? name = entries.lookup name := by
  rw [ofList, get?_foldl_insert (fun _ value => value) hn]
  cases entries.lookup name <;> rfl

/-- The entries of two dictionaries.  Where both have one, they are joined. -/
def mergeWith (join : α → α → α) (d d' : Dictionary α) : Dictionary α :=
  d'.entries.foldl (fun d e => d.insert e.1 (((d.get? e.1).map (join · e.2)).getD e.2)) d

theorem get?_mergeWith (join : α → α → α) (d d' : Dictionary α) (name : String) :
    (d.mergeWith join d').get? name =
      match d'.get? name with
      | none => d.get? name
      | some value => some (((d.get? name).map (join · value)).getD value) :=
  get?_foldl_insert (fun old value => (old.map (join · value)).getD value) d'.nodup_keys d name

/-! Sets -/

theorem mem_keys_insert : name ∈ (d.insert other value).keys ↔ name = other ∨ name ∈ d.keys := by
  obtain ⟨entries, ordered⟩ := d
  simp only [keys, insert]
  clear ordered
  induction entries with
  | nil => simp [insertEntry]
  | cons entry entries ih =>
      obtain ⟨key, old⟩ := entry
      rw [insertEntry]
      by_cases hlt : other < key
      · simp [hlt]
      · by_cases heq : other = key
        · simp [heq]
        · rw [if_neg hlt, if_neg heq, List.map_cons, List.mem_cons, ih, List.map_cons, List.mem_cons,
            or_left_comm]

end Dictionary

theorem mem_sortedSet {text : String} {texts : List String} : text ∈ sortedSet texts ↔ text ∈ texts := by
  have hfold (d : Dictionary Unit) (texts : List String) :
      text ∈ ((texts.map fun t => (t, ())).foldl (fun d e => d.insert e.1 e.2) d).keys ↔
        text ∈ d.keys ∨ text ∈ texts := by
    induction texts generalizing d with
    | nil => simp
    | cons next texts ih =>
        rw [List.map_cons, List.foldl_cons, ih, Dictionary.mem_keys_insert, List.mem_cons, ← or_assoc]
        exact or_congr_left or_comm
  have h := hfold .empty texts
  rw [sortedSet, Dictionary.ofList, h]
  simp [Dictionary.keys, Dictionary.empty]

end WebModules
