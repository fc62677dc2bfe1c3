import WebModules.Proofs.Script.Nesting.Module
import WebModules.Proofs.Script.Parse

/-!
What any rule of the grammar reads has nodes within each other, and so has the tree that a text is
parsed to.
-/

namespace WebModules.Script

open Clause

variable {α : Type}

section Rules

variable {m : Machine} {g : Grade} {lo : Nat} {c : Context} {s t : State}

theorem tree_of_nests {p : Clause Tree} {a : Tree} (h : Nests m g lo s.count none p) (hs : s.Regular)
    (hlo : lo ≤ s.count) (hr : p.exec m.call m.limit c s = .read a t) : ∀ tree ∈ [a], g.Of lo t.count tree :=
  (h.nests c s a t hs rfl s.next_none hlo hr).sound

theorem trees_of_nests {p : Clause (List Tree)} {a : List Tree} (h : Nests m g lo s.count none p) (hs : s.Regular)
    (hlo : lo ≤ s.count) (hr : p.exec m.call m.limit c s = .read a t) : ∀ tree ∈ a, g.Of lo t.count tree :=
  fun tree htree => AllTrees.tree_iff.1 (AllTrees.list_iff.1 (h.nests c s a t hs rfl s.next_none hlo hr) tree htree)

variable [m.Nesting]

/-- What the body of a rule yields is of the grade of the rule if what the rules in it yield is of theirs. -/
theorem clause_nested (rule : Rule α) {a : α} (hs : s.Regular) (hlo : lo ≤ s.count) (hr : rule.Admitted lo s.count)
    (h : rule.clause.exec m.call m.limit c s = .read a t) :
    ∀ tree ∈ rule.trees a, rule.grade.Of lo t.count tree := by
  cases rule with
  | arguments | parameters =>
      dsimp only [Rule.clause, Rule.grade, Rule.trees] at h ⊢
      exact trees_of_nests (m := m) inferInstance hs hlo h
  | subscripts first callee =>
      obtain ⟨hfirst, hlt, hcallee⟩ := hr
      have : AtMost lo first := ⟨hfirst⟩
      have : Below first s.count := ⟨hlt⟩
      dsimp only [Rule.clause, Rule.grade, Rule.trees] at h ⊢
      exact tree_of_nests (Nests.weaken (l := first) (k := .solid) inferInstance) hs hlo h
  | binaryTail left =>
      have hleft : AllTrees (Grade.solid.Of lo s.count) left := hr
      dsimp only [Rule.clause, Rule.grade, Rule.trees] at h ⊢
      exact tree_of_nests (m := m) inferInstance hs hlo h
  | asPattern target element tree =>
      have htree : AllTrees (Grade.any.Of lo s.count) tree := hr
      dsimp only [Rule.clause, Rule.grade, Rule.trees] at h ⊢
      exact tree_of_nests (m := m) inferInstance hs hlo h
  | namedFunction async =>
      dsimp only [Rule.clause, Rule.grade, Rule.trees] at h ⊢
      cases async with
      | none => exact tree_of_nests (m := m) inferInstance hs hlo h
      | some first =>
          have : AtMost lo first := ⟨(hr first rfl).1⟩
          have : AtMost first s.count := ⟨(hr first rfl).2⟩
          exact tree_of_nests (m := m) inferInstance hs hlo h
  | classTail first | namespaceTail first =>
      have : AtMost lo first := ⟨hr.1⟩
      have : AtMost first s.count := ⟨hr.2⟩
      dsimp only [Rule.clause, Rule.grade, Rule.trees] at h ⊢
      exact tree_of_nests (m := m) inferInstance hs hlo h
  | _ =>
      dsimp only [Rule.clause, Rule.grade, Rule.trees] at h ⊢
      exact tree_of_nests (m := m) inferInstance hs hlo h

omit [m.Nesting] in
theorem takes_within {change : Context → Context} {next : Option Token} {p : Clause α} (h : Takes m next p) :
    Takes m next (.within change p) :=
  fun c s a t hs hnext hr => h (change c) s a t hs hnext hr

theorem takes_isolated {next : Option Token} {p : Clause α} (h : Takes m none p) : Takes m next p.isolated :=
  takes_later fun _ => takes_later fun _ => takes_first h

instance moves_arrowBody (async simple : Bool) : Moves m (arrowBody async simple) true := by
  unfold arrowBody
  have hbody (next : Option Token) : Takes m next (within (inBody { async := async } true) (isolated (do
      if ← isSign .openBrace then
        let block ← rule .block
        checkDirectives simple block
        return block
      else assignment))) :=
    takes_within (takes_isolated (takes_later fun _ => takes_ite (takes_first (takes_of_moves _)) (takes_of_moves _)))
  exact (takes_later fun _ => takes_later fun _ => takes_ite (takes_later fun _ => hbody _) (hbody _)).moves

instance moves_function (first : Nat) (kind : FunctionKind) (wanted : ParameterRule) :
    Moves m (function first kind wanted) true := by
  unfold function
  exact (takes_within (takes_later fun _ => takes_first (takes_of_moves _))).moves

/-- The body of a strict rule takes a token if what the strict rules in it read does. -/
theorem clause_strict (rule : Rule α) (hr : rule.isStrict) {a : α} (hs : s.Regular)
    (h : rule.clause.exec m.call m.limit c s = .read a t) : s.count < t.count := by
  have moves : Moves m rule.clause true := by
    cases rule <;> first | contradiction | (dsimp only [Rule.clause]; infer_instance)
  exact moves.moves rfl c s a t hs h

/-- What the body of the rule makes of an operator that stands for the operand before it. -/
theorem clause_joined {a : Tree} (hs : s.Regular) (hj : Joins c s)
    (h : (Rule.binaryTail (standIn s.count) 0).clause.exec m.call m.limit c s = .read a t) : a.Solid s.count t.count :=
  Joined.binaryTail (m := m) ⟨hj, hs, rfl⟩ h

end Rules

/-- The induction is on the number of rules that can be open. -/
theorem execRule_nesting (limit depth : Nat) : Machine.Nesting { call := Clause.execRule limit depth, limit := limit } := by
  induction depth with
  | zero =>
      refine ⟨proceeds_respected.execRule limit 0, ?_, ?_, ?_⟩
      · intro α rule _ c s a t _ h
        cases h
      · intro α rule lo c s a t _ _ _ h
        cases h
      · intro c s a t _ _ h
        cases h
  | succ depth ih =>
      refine ⟨proceeds_respected.execRule limit (depth + 1), ?_, ?_, ?_⟩
      · intro α rule hr c s a t hs h
        exact clause_strict (m := ⟨Clause.execRule limit depth, limit⟩) rule hr hs h
      · intro α rule lo c s a t hs hlo hr h
        exact clause_nested (m := ⟨Clause.execRule limit depth, limit⟩) rule hs hlo hr h
      · intro c s a t hs hj h
        exact clause_joined (m := ⟨Clause.execRule limit depth, limit⟩) hs hj h

instance (text : List Char) : (machineFor text).Nesting := execRule_nesting _ _

theorem module_nested {m : Machine} [m.Nesting] {c : Context} {s t : State} {a : Tree} (hs : s.Regular)
    (hcount : s.count = 0) (h : module.exec m.call m.limit c s = .read a t) :
    t.Regular ∧ ∃ items, a = .node .module 0 t.count items ∧ ∀ item ∈ items, item.Nested 0 t.count := by
  refine ⟨(m.proceeds_of_read h).regular hs, ?_⟩
  obtain ⟨_, _, hmark, h⟩ := Machine.exec_bind h
  cases hmark
  rw [hcount] at h
  obtain ⟨token, u, hu, h⟩ := Machine.exec_bind h
  have hregular := (m.proceeds_of_read hu).regular hs
  have hitems {v : State} (hv : v.Regular) (h : (collect (do
      if ← isFinish then return none else return some (← rule (.statement true true))) >>=
        fun items => node .module 0 items).exec m.call m.limit c v = .read a t) :
      ∃ items, a = .node .module 0 t.count items ∧ ∀ item ∈ items, item.Nested 0 t.count := by
    obtain ⟨items, w, hw, h⟩ := Machine.exec_bind h
    cases h
    have hnests : Nests m .any 0 v.count none (collect (do
        if ← isFinish then return none else return some (← rule (.statement true true)))) := inferInstance
    have hitems := hnests.nests c v items _ hv rfl v.next_none (Nat.zero_le _) hw
    exact ⟨items, rfl, fun item hitem => AllTrees.tree_iff.1 (AllTrees.list_iff.1 hitems item hitem)⟩
  split at h
  · obtain ⟨_, v, hv, h⟩ := Machine.exec_bind h
    exact hitems ((m.proceeds_of_read hv).regular hregular) h
  · exact hitems hregular h

/-- The nodes of the tree of a module lie within each other. -/
theorem parseFrom_nested {origin : Nat} {text : List Char} {p : Parsed} (h : parseFrom origin text = .ok p) :
    ∃ items, p.tree = .node .module 0 p.tokens.size items ∧ ∀ item ∈ items, item.Nested 0 p.tokens.size := by
  obtain ⟨s, hs, htokens⟩ := parseFrom_read h
  have hstart : State.Regular { place := ⟨text, origin⟩ } := ⟨rfl, _, .nil, by simp, by simp⟩
  obtain ⟨hregular, hitems⟩ := module_nested (m := machineFor text) hstart rfl hs
  have hsize : p.tokens.size = s.count := by simp [htokens, hregular.count]
  rwa [hsize]

end WebModules.Script
