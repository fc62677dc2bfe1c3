import WebModules.Proofs.Script.Grammar.Module
import WebModules.Script.Walk

/-!
Every tree that a text is parsed to is sound with respect to the tokens that were read.
-/

namespace WebModules.Script

variable {α : Type}

section Rules

variable {m : Machine} {e : Extent}

theorem tree_of_fits {p : Clause Tree} (h : Fits m e p) {c : Context} {s t : State} {a : Tree}
    (hs : s.count = s.taken.length) (hl : e.least ≤ s.count)
    (hr : p.exec m.call m.limit c s = .read a t) (ht : t.taken.reverse <+: e.tokens) :
    ∀ tree ∈ [a], e.Sound tree :=
  (h.fit c s a t hs hl hr ht).sound

theorem trees_of_fits {p : Clause (List Tree)} (h : Fits m e p) {c : Context} {s t : State}
    {a : List Tree} (hs : s.count = s.taken.length) (hl : e.least ≤ s.count)
    (hr : p.exec m.call m.limit c s = .read a t) (ht : t.taken.reverse <+: e.tokens) :
    ∀ tree ∈ a, e.Sound tree :=
  fun tree htree => AllTrees.tree_iff.1 (AllTrees.list_iff.1 (h.fit c s a t hs hl hr ht) tree htree)

variable [m.Sound]

/-- What the body of a rule yields is sound if what the rules in it yield is. -/
theorem clause_sound (rule : Rule α) (hr : e.Admits rule) {c : Context} {s t : State} {a : α}
    (hs : s.count = s.taken.length) (hl : e.least ≤ s.count)
    (h : rule.clause.exec m.call m.limit c s = .read a t) (ht : t.taken.reverse <+: e.tokens) :
    ∀ tree ∈ rule.trees a, e.Sound tree := by
  cases rule with
  | arguments | parameters =>
      dsimp only [Rule.clause] at h
      exact trees_of_fits inferInstance hs hl h ht
  | subscripts first callee =>
      obtain ⟨hfirst, hcallee⟩ := hr
      dsimp only [Rule.clause] at h
      exact tree_of_fits inferInstance hs hl h ht
  | binaryTail left =>
      have hleft : e.Fit left := hr
      dsimp only [Rule.clause] at h
      exact tree_of_fits inferInstance hs hl h ht
  | asPattern target element tree =>
      have htree : e.Fit tree := hr
      dsimp only [Rule.clause] at h
      exact tree_of_fits inferInstance hs hl h ht
  | _ =>
      dsimp only [Rule.clause] at h
      exact tree_of_fits inferInstance hs hl h ht

end Rules

/-- The induction is on the number of rules that can be open. -/
theorem execRule_sound (limit depth : Nat) :
    Machine.Sound { call := Clause.execRule limit depth, limit := limit } := by
  induction depth with
  | zero =>
      refine ⟨advances_respected.execRule limit 0, ?_⟩
      intro α rule e _ c s a t _ _ h
      simp [Clause.execRule] at h
  | succ depth ih =>
      refine ⟨advances_respected.execRule limit (depth + 1), ?_⟩
      intro α rule e hr c s a t hs hl h ht
      exact clause_sound (m := ⟨Clause.execRule limit depth, limit⟩) rule hr hs hl h ht

/-- The machine that reads a text. -/
def machineFor (text : List Char) : Machine where
  call := Clause.execRule (readingLimit text) (readingLimit text)
  limit := readingLimit text

instance (text : List Char) : (machineFor text).Sound := execRule_sound _ _

theorem parseFrom_read {origin : Nat} {text : List Char} {p : Parsed}
    (h : parseFrom origin text = .ok p) :
    ∃ s, Clause.module.exec (machineFor text).call (machineFor text).limit {}
        { place := ⟨text, origin⟩ } = .read p.tree s ∧ p.tokens = s.taken.reverse.toArray := by
  unfold parseFrom at h
  dsimp only at h
  split at h
  · cases h
  · rename_i tree s hs
    split at h
    · cases h
    · cases h
      exact ⟨s, hs, rfl⟩

theorem parseFrom_sound {origin : Nat} {text : List Char} {p : Parsed}
    (h : parseFrom origin text = .ok p) : Extent.Sound ⟨p.tokens.toList, 0⟩ p.tree := by
  obtain ⟨s, hs, htokens⟩ := parseFrom_read h
  exact tree_of_fits (m := machineFor text) fits_module rfl (Nat.zero_le _) hs
    (by simp [htokens]) p.tree (by simp)

end WebModules.Script
