import WebModules.Proofs.Script.Fits
import WebModules.Proofs.Script.Nested
import WebModules.Proofs.Script.Tokens

/-!
The rules by which a clause of the grammar is shown to yield trees whose nodes lie within each
other: one for each way in which clauses are put together, and one for each named rule of the
grammar.  A clause is looked at where `hi` tokens have been read, and `lo` is the number of the
token that the trees it yields start at or after.
-/

namespace WebModules.Script

/-- A state that reading can lead to. -/
structure State.Regular (s : State) : Prop where
  count : s.count = s.taken.length
  placed : ∃ start, Placed start s

/-- The next token has been looked at and is the given one, if one is given. -/
def State.Next (next : Option Token) (s : State) : Prop :=
  ∀ token ∈ next, s.current?.map (fun looked => looked.lexeme.token) = some token

/-- Reading leads from one state to the other. -/
structure Proceeds (s t : State) : Prop where
  advances : Advances s t
  placed : ∀ start, Placed start s → Placed start t

theorem proceeds_respected : Respected Proceeds where
  refl s := ⟨advances_respected.refl s, fun _ => id⟩
  trans h h' := ⟨advances_respected.trans h.advances h'.advances, fun start => h'.placed start ∘ h.placed start⟩
  look c s := ⟨advances_respected.look c s, fun _ h => h.look c⟩
  lookAhead c s := ⟨advances_respected.lookAhead c s, fun _ h => h.lookAhead c⟩
  take c s := ⟨advances_respected.take c s, fun _ h => h.take c⟩
  rescan c how s := ⟨advances_respected.rescan c how s, fun _ h => h.rescan c how⟩
  complain silent faults s := ⟨advances_respected.complain silent faults s, fun _ h => h.complain silent faults⟩
  note change s := ⟨advances_respected.note change s, fun start => (placed_respected start).note change s⟩

theorem Proceeds.regular {s t : State} (h : Proceeds s t) (hs : s.Regular) : t.Regular := by
  obtain ⟨start, hstart⟩ := hs.placed
  exact ⟨h.advances.count hs.count, start, h.placed start hstart⟩

theorem Proceeds.count_le {s t : State} (h : Proceeds s t) (hs : s.Regular) : s.count ≤ t.count :=
  h.advances.count_le hs.count

theorem State.next_none (s : State) : s.Next none := fun _ h => nomatch h

/-- A token after which the text goes on. -/
class Token.Live (token : Token) : Prop where
  ne_finish : token ≠ .finish

instance (word : String) : (Token.word word).Live := ⟨nofun⟩
instance (s : Sign) : (Token.sign s).Live := ⟨nofun⟩
instance : Token.string.Live := ⟨nofun⟩
instance : Token.number.Live := ⟨nofun⟩
instance : Token.bigint.Live := ⟨nofun⟩

/-- The grade of the trees that a rule yields. -/
def Rule.grade : {α : Type} → Rule α → Grade
  | _, .expression | _, .assignment | _, .binary | _, .binaryTail _ _ | _, .unary | _, .leftHandSide
  | _, .memberOrNew _ | _, .subscripts _ _ _ _ | _, .object | _, .namedFunction _ _ _
  | _, .classTail _ _ | _, .block | _, .namespaceTail _ => .solid
  | _, .asPattern _ _ _ | _, .bindingTarget => .loose
  | _, _ => .any

/-- Whether a rule always takes a token. -/
def Rule.isStrict : {α : Type} → Rule α → Bool
  | _, .expression | _, .assignment | _, .binary | _, .unary | _, .leftHandSide | _, .memberOrNew _
  | _, .arguments | _, .object | _, .function _ _ _ | _, .arrowBody _ _ | _, .block => true
  | _, _ => false

/-- What a rule may be called with where `hi` tokens have been read: trees that have been read since
token `lo`, and first tokens from there on. -/
def Rule.Admitted (lo hi : Nat) : {α : Type} → Rule α → Prop
  | _, .binaryTail left _ => AllTrees (Grade.solid.Of lo hi) left
  | _, .subscripts first callee _ _ => lo ≤ first ∧ first < hi ∧ AllTrees (Grade.solid.Of first hi) callee
  | _, .asPattern _ _ tree => AllTrees (Grade.any.Of lo hi) tree
  | _, .namedFunction async _ _ => ∀ first ∈ async, lo ≤ first ∧ first ≤ hi
  | _, .classTail first _ => lo ≤ first ∧ first ≤ hi
  | _, .namespaceTail first => lo ≤ first ∧ first ≤ hi
  | _, _ => True

/-- The next token joins two operands. -/
def Joins (c : Context) (s : State) : Prop :=
  ∃ token, s.Next (some token) ∧
    (token = .word "instanceof" ∨ (token = .word "in" ∧ c.inOperator) ∨ ∃ s, token = .sign s ∧ s.isBinary)

/-- Rules read on, and yield trees of their grade where they are admitted. -/
class Machine.Nesting (m : Machine) : Prop where
  proceeds : ∀ {α : Type} (rule : Rule α) c s, Proceeds s (m.call rule c s).state
  strict : ∀ {α : Type} (rule : Rule α), rule.isStrict → ∀ c s a t, s.Regular →
    m.call rule c s = .read a t → s.count < t.count
  nested : ∀ {α : Type} (rule : Rule α) (lo : Nat) c s a t, s.Regular → lo ≤ s.count →
    rule.Admitted lo s.count → m.call rule c s = .read a t → ∀ tree ∈ rule.trees a, rule.grade.Of lo t.count tree
  /-- An operand that could not be read gives way to the operator that stands for it. -/
  joined : ∀ c s a t, s.Regular → Joins c s →
    m.call (.binaryTail (.node .invalid s.count (s.count + 1) []) 0) c s = .read a t → a.Solid s.count t.count

/-- A clause, read where `hi` tokens have been read and `next` comes next, only yields trees of a grade
that start at token `lo` or later. -/
class Nests (m : Machine) (g : Grade) (lo hi : Nat) (next : Option Token) {α : Type} [Holds α] (p : Clause α) :
    Prop where
  nests : ∀ c s a t, s.Regular → s.count = hi → s.Next next → lo ≤ hi →
    p.exec m.call m.limit c s = .read a t → AllTrees (g.Of lo t.count) a

/-- A clause takes a token, if `strict` says so. -/
class Moves (m : Machine) {α : Type} (p : Clause α) (strict : outParam Bool) : Prop where
  moves : strict → ∀ c s a t, s.Regular → p.exec m.call m.limit c s = .read a t → s.count < t.count

/-- The grade of the trees in what a clause yields, for what comes after the clause. -/
class Reads {α : Type} (p : Clause α) (g : outParam Grade) : Prop

/-- Whether a token is one of the given signs. -/
def Token.isOneOf (ss : List Sign) : Token → Bool
  | .sign s => ss.contains s
  | _ => false

/-- A clause that tells something of the next token. -/
class Asks (p : Clause Bool) (q : outParam (Token → Bool)) : Prop where
  asks : ∀ (m : Machine) c s, p.exec m.call m.limit c s = .read (q (s.look c).1.token) (s.look c).2

instance (s : Sign) : Asks (Clause.isSign s) (· == .sign s) := ⟨fun _ _ _ => rfl⟩
instance (w : String) : Asks (Clause.isWord w) (· == .word w) := ⟨fun _ _ _ => rfl⟩
instance (ss : List Sign) : Asks (Clause.isOneOf ss) (Token.isOneOf ss) := by
  refine ⟨fun m c s => ?_⟩
  simp only [Clause.isOneOf, Bind.bind, Clause.exec]
  generalize (s.look c).1.token = token
  cases token <;> rfl

/-- A clause that takes no token, nor looks at the next one in another way. -/
class Peeks {α : Type} (p : Clause α) : Prop where
  peeks : ∀ (m : Machine) c s a t, p.exec m.call m.limit c s = .read a t →
    t.count = s.count ∧ ∀ next, s.Next next → t.Next next

section Peeks

variable {α β : Type}

theorem look_next {next : Option Token} {s : State} (c : Context) (h : s.Next next) : (s.look c).2.Next next := by
  intro token htoken
  have hs := h token htoken
  obtain ⟨looked, hl, -⟩ := Option.map_eq_some_iff.1 hs
  rwa [State.look, hl]

theorem look_token {token : Token} {s : State} (c : Context) (h : s.Next (some token)) :
    (s.look c).1.token = token := by
  obtain ⟨looked, hl, htoken⟩ := Option.map_eq_some_iff.1 (h token rfl)
  rw [State.look, hl]
  exact htoken

theorem next_look (c : Context) (s : State) : (s.look c).2.Next (some (s.look c).1.token) := by
  rintro token ⟨⟩
  obtain ⟨looked, hl, he⟩ := Option.map_eq_some_iff.1 (look_current c s)
  rw [hl, ← he]
  rfl

theorem lookAhead_eq (c : Context) (s : State) :
    (s.lookAhead c).2.count = s.count ∧ (s.lookAhead c).2.current? = (s.look c).2.current? := by
  have h := look_eq c s
  unfold State.lookAhead State.complain
  dsimp only
  split
  · exact ⟨h.2, rfl⟩
  · dsimp only
    split <;> exact ⟨h.2, rfl⟩

theorem peeks_look {f : Lexeme → State → α} {p : Clause α}
    (hp : ∀ (m : Machine) c s, p.exec m.call m.limit c s = .read (f (s.look c).1 (s.look c).2) (s.look c).2) :
    Peeks p := by
  refine ⟨fun m c s a t h => ?_⟩
  rw [hp] at h
  cases h
  exact ⟨(look_eq c s).2, fun next => look_next c⟩

theorem peeks_lookAhead {f : Lexeme → α} {p : Clause α}
    (hp : ∀ (m : Machine) c s, p.exec m.call m.limit c s = .read (f (s.lookAhead c).1) (s.lookAhead c).2) :
    Peeks p := by
  refine ⟨fun m c s a t h => ?_⟩
  rw [hp] at h
  cases h
  have hahead := lookAhead_eq c s
  refine ⟨hahead.1, fun next hnext token htoken => ?_⟩
  rw [hahead.2]
  exact look_next c hnext token htoken

theorem peeks_still {f : Context → State → α} {p : Clause α}
    (hp : ∀ (m : Machine) c s, p.exec m.call m.limit c s = .read (f c s) s) : Peeks p := by
  refine ⟨fun m c s a t h => ?_⟩
  rw [hp] at h
  cases h
  exact ⟨rfl, fun _ => id⟩

instance : Peeks Clause.current := peeks_look (f := fun l _ => l.token) fun _ _ _ => rfl
instance : Peeks Clause.lineBreak := peeks_look (f := fun l _ => l.afterLineBreak) fun _ _ _ => rfl
instance : Peeks Clause.adjacent := peeks_look (f := fun l s => l.start == s.lastStop) fun _ _ _ => rfl
instance : Peeks Clause.regexFlags := peeks_look (f := fun l _ => l.value) fun _ _ _ => rfl
instance : Peeks Clause.ahead := peeks_lookAhead (f := Lexeme.token) fun _ _ _ => rfl
instance : Peeks Clause.lineBreakAhead := peeks_lookAhead (f := Lexeme.afterLineBreak) fun _ _ _ => rfl
instance : Peeks Clause.mark := peeks_still (f := fun _ s => s.count) fun _ _ _ => rfl
instance : Peeks Clause.context := peeks_still (f := fun c _ => c) fun _ _ _ => rfl
instance : Peeks Clause.notes := peeks_still (f := fun _ s => s.notes) fun _ _ _ => rfl
instance (a : α) : Peeks (pure a : Clause α) := peeks_still (f := fun _ _ => a) fun _ _ _ => rfl
instance (number : Nat) (test : StringTest) : Peeks (.testString number test) :=
  peeks_still fun _ _ _ => rfl

instance (change : Notes → Notes) : Peeks (.note change) := by
  refine ⟨fun m c s a t h => ?_⟩
  cases h
  exact ⟨rfl, fun _ => id⟩

instance (place : Place) (complaint : Complaint) : Peeks (.fail place complaint : Clause α) :=
  ⟨fun _ _ _ _ _ h => by simp [Clause.exec] at h⟩

instance (p : Clause α) : Peeks (.foresee p) := by
  refine ⟨fun m c s a t h => ?_⟩
  simp only [Clause.exec] at h
  split at h
  · cases h
    exact ⟨rfl, fun _ => id⟩
  · cases h

instance peeks_bind (p : Clause α) (f : α → Clause β) [hp : Peeks p] [hf : ∀ a, Peeks (f a)] : Peeks (p >>= f) := by
  refine ⟨fun m c s b t h => ?_⟩
  obtain ⟨a, u, hu, h⟩ := Machine.exec_bind h
  obtain ⟨hcount, hnext⟩ := hp.peeks m c s a u hu
  obtain ⟨hcount', hnext'⟩ := (hf a).peeks m c u b t h
  exact ⟨hcount'.trans hcount, fun next => hnext' next ∘ hnext next⟩

instance (p : Prop) [Decidable p] (a b : Clause α) [ha : Peeks a] [hb : Peeks b] : Peeks (if p then a else b) := by
  split
  · exact ha
  · exact hb

instance (s : Sign) : Peeks (Clause.isSign s) := by
  unfold Clause.isSign
  infer_instance

instance (w : String) : Peeks (Clause.isWord w) := by
  unfold Clause.isWord
  infer_instance

instance (ss : List Sign) : Peeks (Clause.isOneOf ss) := by
  unfold Clause.isOneOf
  refine @peeks_bind _ _ _ _ _ fun token => ?_
  split <;> infer_instance

instance : Peeks Clause.isAnyWord := by
  unfold Clause.isAnyWord
  infer_instance

instance : Peeks Clause.isName := by
  unfold Clause.isName
  infer_instance

instance : Peeks Clause.isString := by
  unfold Clause.isString
  infer_instance

instance (s : Sign) : Peeks (Clause.isAheadSign s) := by
  unfold Clause.isAheadSign
  infer_instance

instance (w : String) : Peeks (Clause.isAheadWord w) := by
  unfold Clause.isAheadWord
  infer_instance

instance : Peeks Clause.isAheadAnyWord := by
  unfold Clause.isAheadAnyWord
  infer_instance

instance : Peeks Clause.isAheadName := by
  unfold Clause.isAheadName
  infer_instance

instance : Peeks Clause.isFinish := by
  unfold Clause.isFinish
  infer_instance

instance : Peeks Clause.isEnd := by
  unfold Clause.isEnd
  refine @peeks_bind _ _ _ _ _ fun token => ?_
  split <;> infer_instance

end Peeks

section Rules

variable {m : Machine} {g k : Grade} {lo l hi : Nat} {next : Option Token} {strict : Bool} {α β σ : Type}

/-! What takes a token -/

instance (priority := low) moves_any (p : Clause α) : Moves m p false := ⟨nofun⟩

theorem moves_eat {s : Sign} {c : Context} {u t : State} (h : (Clause.eat s).exec m.call m.limit c u = .read true t) :
    u.count < t.count := by
  simp only [Clause.eat, Clause.isSign, Bind.bind, Pure.pure, Clause.exec] at h
  split at h
  · rename_i hsign
    obtain ⟨-, hcount⟩ := take_token (c := c) (s := (u.look c).2)
      (by rw [look_look, eq_of_beq hsign]; nofun)
    cases h
    rw [hcount, (look_eq c u).2]
    exact Nat.lt_succ_self _
  · simp [Clause.exec] at h

theorem moves_eatWord {w : String} {c : Context} {u t : State}
    (h : (Clause.eatWord w).exec m.call m.limit c u = .read true t) : u.count < t.count := by
  simp only [Clause.eatWord, Clause.isWord, Bind.bind, Pure.pure, Clause.exec] at h
  split at h
  · rename_i hword
    obtain ⟨-, hcount⟩ := take_token (c := c) (s := (u.look c).2)
      (by rw [look_look, eq_of_beq hword]; nofun)
    cases h
    rw [hcount, (look_eq c u).2]
    exact Nat.lt_succ_self _
  · simp [Clause.exec] at h

theorem peeks_eat {s : Sign} {c : Context} {u t : State} (h : (Clause.eat s).exec m.call m.limit c u = .read false t) :
    t.count = u.count ∧ ∀ next, u.Next next → t.Next next := by
  simp only [Clause.eat, Clause.isSign, Bind.bind, Pure.pure, Clause.exec] at h
  split at h
  · simp [Clause.exec] at h
  · cases h
    exact ⟨(look_eq c u).2, fun next => look_next c⟩

theorem peeks_eatWord {w : String} {c : Context} {u t : State}
    (h : (Clause.eatWord w).exec m.call m.limit c u = .read false t) :
    t.count = u.count ∧ ∀ next, u.Next next → t.Next next := by
  simp only [Clause.eatWord, Clause.isWord, Bind.bind, Pure.pure, Clause.exec] at h
  split at h
  · simp [Clause.exec] at h
  · cases h
    exact ⟨(look_eq c u).2, fun next => look_next c⟩

instance moves_expect (s : Sign) : Moves m (Clause.expect s) true := by
  refine ⟨fun _ c u _ t _ h => ?_⟩
  obtain ⟨found, v, hv, h⟩ := Machine.exec_bind h
  cases found with
  | true =>
      cases h
      exact moves_eat hv
  | false => simp [Clause.exec] at h

instance moves_expectWord (w : String) : Moves m (Clause.expectWord w) true := by
  refine ⟨fun _ c u _ t _ h => ?_⟩
  obtain ⟨found, v, hv, h⟩ := Machine.exec_bind h
  cases found with
  | true =>
      cases h
      exact moves_eatWord hv
  | false => simp [Clause.exec] at h

instance moves_within (change : Context → Context) (p : Clause α) [h : Moves m p strict] :
    Moves m (.within change p) strict := ⟨fun hstrict c s a t hs hr => h.moves hstrict (change c) s a t hs hr⟩

instance moves_withIn (allowed : Bool) (p : Clause α) [Moves m p strict] : Moves m (p.withIn allowed) strict :=
  moves_within _ p

instance moves_inType (p : Clause α) [Moves m p strict] : Moves m p.inType strict := moves_within _ p

/-! What yields trees of which grade -/

instance (priority := low) reads_any (p : Clause α) : Reads p .any := ⟨⟩
instance (change : Context → Context) (p : Clause α) [Reads p g] : Reads (.within change p) g := ⟨⟩
instance (allowed : Bool) (p : Clause α) [Reads p g] : Reads (p.withIn allowed) g := ⟨⟩
instance (p : Clause α) [Reads p g] : Reads p.inType g := ⟨⟩
instance (p : Clause (Option α)) (other : Clause α) [Reads other g] : Reads (p.otherwise other) g := ⟨⟩
instance : Reads Clause.expression .solid := ⟨⟩
instance : Reads Clause.assignment .solid := ⟨⟩
instance : Reads (.rule .binary) .solid := ⟨⟩
instance (left : Tree) (least : Nat) : Reads (.rule (.binaryTail left least)) .solid := ⟨⟩
instance : Reads (.rule .unary) .solid := ⟨⟩
instance : Reads (.rule .leftHandSide) .solid := ⟨⟩
instance (isNew : Bool) : Reads (.rule (.memberOrNew isNew)) .solid := ⟨⟩
instance (first : Nat) (callee : Callee) (noCall noIndex : Bool) :
    Reads (.rule (.subscripts first callee noCall noIndex)) .solid := ⟨⟩
instance : Reads (.rule .object) .solid := ⟨⟩
instance (async : Option Nat) (isExpression nameRequired : Bool) :
    Reads (.rule (.namedFunction async isExpression nameRequired)) .solid := ⟨⟩
instance (first : Nat) (nameRequired : Bool) : Reads (.rule (.classTail first nameRequired)) .solid := ⟨⟩
instance : Reads (.rule .block) .solid := ⟨⟩
instance (first : Nat) : Reads (.rule (.namespaceTail first)) .solid := ⟨⟩
instance (target element : Bool) (tree : Tree) : Reads (.rule (.asPattern target element tree)) .loose := ⟨⟩
instance : Reads (.rule .bindingTarget) .loose := ⟨⟩
instance (priority := low) reads_node (shape : Shape) (first : Nat) (children : List Tree) :
    Reads (Clause.node shape first children) .solid := ⟨⟩
instance (shape : Shape) (first : Nat) (children : List Tree) [shape.Part] :
    Reads (Clause.node shape first children) .loose := ⟨⟩

variable [Holds α] [Holds β] [Holds σ]

/-- What is read of a higher grade and later on is also of the lower grade. -/
theorem Nests.weaken {p : Clause α} (h : Nests m k l hi next p) [g.Weaker k] [hlo : AtMost lo l] [hhi : AtMost l hi] :
    Nests m g lo hi next p :=
  ⟨fun c s a t hs hcount hnext _ hr =>
    (h.nests c s a t hs hcount hnext hhi.le hr).weaken hlo.le (Nat.le_refl _)⟩

/-- A clause that is given no trees only yields trees that it has read itself. -/
theorem nests_here {p : Clause α} (h : Nests m k hi hi next p) [g.Weaker k] : Nests m g lo hi next p :=
  ⟨fun c s a t hs hcount hnext hlo hr =>
    (h.nests c s a t hs hcount hnext (Nat.le_refl hi) hr).weaken hlo (Nat.le_refl _)⟩

instance (priority := high) nests_treeless [Treeless α] (p : Clause α) : Nests m g lo hi next p :=
  ⟨fun _ _ _ _ _ _ _ _ _ => inferInstance⟩

instance nests_pure (a : α) [h : AllTrees (g.Of lo hi) a] : Nests m g lo hi next (pure a : Clause α) := by
  refine ⟨fun c s b t _ hcount _ _ hr => ?_⟩
  cases hr
  rwa [hcount]

instance nests_value (a : α) [AllTrees (g.Of lo hi) a] : Nests m g lo hi next (Clause.pure a) := nests_pure a

instance nests_fail (place : Place) (complaint : Complaint) :
    Nests m g lo hi next (.fail place complaint : Clause α) :=
  ⟨fun _ _ _ _ _ _ _ _ hr => by simp [Clause.exec] at hr⟩

instance nests_unexpected (wanted : String) : Nests m g lo hi next (Clause.unexpected wanted : Clause α) :=
  nests_fail _ _

instance (priority := low) nests_ite (p : Prop) [Decidable p] (a b : Clause α) [ha : Nests m g lo hi next a]
    [hb : Nests m g lo hi next b] : Nests m g lo hi next (if p then a else b) := by
  split
  · exact ha
  · exact hb

instance nests_ite_true [Decidable (true = true)] (a b : Clause α) [h : Nests m g lo hi next a] :
    Nests m g lo hi next (if true = true then a else b) := by rwa [if_pos rfl]

instance nests_ite_false [Decidable (false = true)] (a b : Clause α) [h : Nests m g lo hi next b] :
    Nests m g lo hi next (if false = true then a else b) := by rwa [if_neg Bool.false_ne_true]

instance nests_within (change : Context → Context) (p : Clause α) [h : Nests m g lo hi next p] :
    Nests m g lo hi next (.within change p) :=
  ⟨fun c s a t hs hcount hnext hlo hr => h.nests (change c) s a t hs hcount hnext hlo hr⟩

instance nests_withIn (allowed : Bool) (p : Clause α) [Nests m g lo hi next p] :
    Nests m g lo hi next (p.withIn allowed) := nests_within _ p

instance nests_inType (p : Clause α) [Nests m g lo hi next p] : Nests m g lo hi next p.inType := nests_within _ p

instance (priority := high) nests_mark (f : Nat → Clause β) [h : Nests m g lo hi next (f hi)] :
    Nests m g lo hi next (Clause.mark >>= f) := by
  refine ⟨fun c s b t hs hcount hnext hlo hr => ?_⟩
  obtain ⟨n, u, hu, hr⟩ := Machine.exec_bind hr
  cases hu
  exact h.nests c s b t hs hcount hnext hlo (hcount ▸ hr)

omit [Holds α] in
theorem nests_peeked {p : Clause α} {f : α → Clause β} [hp : Peeks p] (hf : ∀ a, Nests m g lo hi next (f a))
    (hproceeds : ∀ c s, Proceeds s (p.exec m.call m.limit c s).state) : Nests m g lo hi next (p >>= f) := by
  refine ⟨fun c s b t hs hcount hnext hlo hr => ?_⟩
  obtain ⟨a, u, hu, hr⟩ := Machine.exec_bind hr
  obtain ⟨hcount', hnext'⟩ := hp.peeks m c s a u hu
  have hproceed := hproceeds c s
  rw [hu] at hproceed
  exact (hf a).nests c u b t (hproceed.regular hs) (hcount'.trans hcount) (hnext' next hnext) hlo hr

theorem need_read {c : Context} {s u : State} {token : Token} (h : Clause.need.exec m.call m.limit c s = .read token u) :
    u = (s.look c).2 ∧ token = (s.look c).1.token ∧ token ≠ .finish := by
  simp only [Clause.need, Bind.bind, Pure.pure, Clause.exec] at h
  split at h
  · simp [Clause.exec] at h
  · simp [Clause.exec] at h
  · rename_i hfinish _
    cases h
    exact ⟨rfl, rfl, hfinish⟩

omit [Holds α] [Holds σ] in
theorem repeated_read {step : σ → Clause (σ ⊕ α)} {c : Context} {I : σ → State → Prop} {Q : α → State → Prop}
    (hstep : ∀ {x s y t}, I x s → (step x).exec m.call m.limit c s = .read y t → y.elim (I · t) (Q · t))
    {k : Nat} {x : σ} {s t : State} {a : α} (h : I x s)
    (hr : State.repeated c (fun x s => (step x).exec m.call m.limit c s) k x s = .read a t) : Q a t := by
  induction k generalizing x s with
  | zero => simp [State.repeated] at hr
  | succ k ih =>
      unfold State.repeated at hr
      split at hr
      · rename_i hu
        exact ih (hstep h hu) hr
      · rename_i hu
        cases hr
        exact hstep h hu
      · cases hr

section Proceed

variable [m.Nesting]

omit [Holds α] in
theorem Machine.exec_proceeds (p : Clause α) (c : Context) (s : State) :
    Proceeds s (p.exec m.call m.limit c s).state :=
  proceeds_respected.exec Machine.Nesting.proceeds p c s

omit [Holds α] in
theorem Machine.proceeds_of_read {p : Clause α} {c : Context} {s t : State} {a : α}
    (h : p.exec m.call m.limit c s = .read a t) : Proceeds s t := by
  simpa [h] using m.exec_proceeds p c s

omit [Holds α] in
theorem onward_of_read {p : Clause α} [hp : Moves m p strict] {c : Context} {s t : State} {a : α} (hs : s.Regular)
    (h : p.exec m.call m.limit c s = .read a t) : s.count ≤ t.count ∧ (strict → s.count < t.count) :=
  ⟨(m.proceeds_of_read h).count_le hs, fun hstrict => hp.moves hstrict c s a t hs h⟩

theorem nests_current {f : Token → Clause β} (hf : ∀ token, Nests m g lo hi (some token) (f token)) :
    Nests m g lo hi next (Clause.current >>= f) := by
  refine ⟨fun c s b t hs hcount _ hlo hr => ?_⟩
  obtain ⟨token, u, hu, hr⟩ := Machine.exec_bind hr
  have hproceed := m.proceeds_of_read hu
  cases hu
  exact (hf _).nests c _ b t (hproceed.regular hs) ((look_eq c s).2.trans hcount) (next_look c s) hlo hr

theorem nests_ask {p : Clause Bool} {q : Token → Bool} [hp : Asks p q] {f : Bool → Clause β}
    (hf : ∀ token, Nests m g lo hi (some token) (f (q token))) : Nests m g lo hi next (p >>= f) := by
  refine ⟨fun c s b t hs hcount _ hlo hr => ?_⟩
  obtain ⟨found, u, hu, hr⟩ := Machine.exec_bind hr
  have hproceed := m.proceeds_of_read hu
  rw [hp.asks] at hu
  cases hu
  exact (hf _).nests c _ b t (hproceed.regular hs) ((look_eq c s).2.trans hcount) (next_look c s) hlo hr

theorem nests_known {p : Clause Bool} {q : Token → Bool} [hp : Asks p q] {token : Token} {f : Bool → Clause β}
    (hf : Nests m g lo hi (some token) (f (q token))) : Nests m g lo hi (some token) (p >>= f) := by
  refine ⟨fun c s b t hs hcount hnext hlo hr => ?_⟩
  obtain ⟨found, u, hu, hr⟩ := Machine.exec_bind hr
  have hproceed := m.proceeds_of_read hu
  rw [hp.asks, look_token c hnext] at hu
  cases hu
  exact hf.nests c _ b t (hproceed.regular hs) ((look_eq c s).2.trans hcount) (look_next c hnext) hlo hr

theorem nests_need {f : Token → Clause β} (hf : ∀ (token : Token) [token.Live], Nests m g lo hi (some token) (f token)) :
    Nests m g lo hi next (Clause.need >>= f) := by
  refine ⟨fun c s b t hs hcount _ hlo hr => ?_⟩
  obtain ⟨token, u, hu, hr⟩ := Machine.exec_bind hr
  have hproceed := m.proceeds_of_read hu
  obtain ⟨rfl, rfl, hlive⟩ := need_read hu
  have : (s.look c).1.token.Live := ⟨hlive⟩
  exact (hf _).nests c _ b t (hproceed.regular hs) ((look_eq c s).2.trans hcount) (next_look c s) hlo hr

/-- Where a slash comes next, a regular expression or a malformed token does when that is read again. -/
theorem nests_regexToken {token : Token} (hslash : Lexer.IsSlash token) {f : Unit → Clause β}
    (hf : ∀ (token : Token) [token.Live], Nests m g lo hi (some token) (f ())) :
    Nests m g lo hi (some token) (.rescan .regex >>= f) := by
  refine ⟨fun c s b t hs hcount hnext hlo hr => ?_⟩
  obtain ⟨_, u, hu, hr⟩ := Machine.exec_bind hr
  have hproceed := m.proceeds_of_read hu
  cases hu
  obtain ⟨start, hplaced⟩ := hs.placed
  obtain ⟨looked, hl, rfl⟩ := Option.map_eq_some_iff.1 (hnext token rfl)
  have : ((s.rescan c .regex).look c).1.token.Live := ⟨hplaced.rescan_regex hl hslash c c⟩
  have hcount' : (s.rescan c .regex).count = s.count := by
    unfold State.rescan State.complain
    dsimp only
    split <;> rfl
  exact (hf ((s.rescan c .regex).look c).1.token).nests c _ b t (hproceed.regular hs) (hcount'.trans hcount)
    (by rintro token ⟨⟩; rfl) hlo hr

instance (priority := high) nests_take (token : Token) [token.Live] (f : Unit → Clause β)
    [h : ∀ n : Onward true hi, Nests m g lo n.val none (f ())] : Nests m g lo hi (some token) (Clause.take >>= f) := by
  refine ⟨fun c s b t hs hcount hnext hlo hr => ?_⟩
  obtain ⟨_, u, hu, hr⟩ := Machine.exec_bind hr
  have hproceed := m.proceeds_of_read hu
  cases hu
  obtain ⟨-, htaken⟩ := take_token (c := c) (s := s)
    (by rw [look_token c hnext]; exact Token.Live.ne_finish)
  let n : Onward true hi := ⟨(s.take c).count, by omega, fun _ => by omega⟩
  exact (h n).nests c _ b t (hproceed.regular hs) rfl (State.next_none _) (Nat.le_trans hlo n.le) hr

instance (priority := high) nests_eat (s : Sign) (f : Bool → Clause β) [h : ∀ n : Onward true hi, Nests m g lo n.val none (f true)]
    [e : Nests m g lo hi next (f false)] : Nests m g lo hi next (Clause.eat s >>= f) := by
  refine ⟨fun c u b t hs hcount hnext hlo hr => ?_⟩
  obtain ⟨found, v, hv, hr⟩ := Machine.exec_bind hr
  have hregular := (m.proceeds_of_read hv).regular hs
  cases found with
  | true =>
      have hlt := moves_eat hv
      let n : Onward true hi := ⟨v.count, by omega, fun _ => by omega⟩
      exact (h n).nests c v b t hregular rfl (State.next_none v) (Nat.le_trans hlo n.le) hr
  | false =>
      obtain ⟨hcount', hnext'⟩ := peeks_eat hv
      exact e.nests c v b t hregular (hcount'.trans hcount) (hnext' next hnext) hlo hr

instance (priority := high) nests_eatWord (w : String) (f : Bool → Clause β)
    [h : ∀ n : Onward true hi, Nests m g lo n.val none (f true)] [e : Nests m g lo hi next (f false)] :
    Nests m g lo hi next (Clause.eatWord w >>= f) := by
  refine ⟨fun c u b t hs hcount hnext hlo hr => ?_⟩
  obtain ⟨found, v, hv, hr⟩ := Machine.exec_bind hr
  have hregular := (m.proceeds_of_read hv).regular hs
  cases found with
  | true =>
      have hlt := moves_eatWord hv
      let n : Onward true hi := ⟨v.count, by omega, fun _ => by omega⟩
      exact (h n).nests c v b t hregular rfl (State.next_none v) (Nat.le_trans hlo n.le) hr
  | false =>
      obtain ⟨hcount', hnext'⟩ := peeks_eatWord hv
      exact e.nests c v b t hregular (hcount'.trans hcount) (hnext' next hnext) hlo hr

instance (priority := high) nests_peek (p : Clause α) (f : α → Clause β) [Peeks p]
    [h : ∀ a, Nests m g lo hi next (f a)] : Nests m g lo hi next (p >>= f) :=
  nests_peeked h (m.exec_proceeds p)

omit [Holds α] [m.Nesting] in
instance (priority := high) nests_fail_bind (place : Place) (complaint : Complaint) (f : α → Clause β) :
    Nests m g lo hi next (.fail place complaint >>= f) :=
  ⟨fun _ _ _ _ _ _ _ _ hr => by simp [Bind.bind, Clause.exec] at hr⟩

omit [Holds α] [m.Nesting] in
instance (priority := high) nests_unexpected_bind (wanted : String) (f : α → Clause β) :
    Nests m g lo hi next (Clause.unexpected wanted >>= f) := nests_fail_bind _ _ f

omit [Holds α] [m.Nesting] in
instance (priority := high) nests_failMalformed_bind (pass : Bool) (f : α → Clause β) :
    Nests m g lo hi next (.failMalformed pass >>= f) :=
  ⟨fun _ _ _ _ _ _ _ _ hr => by simp [Bind.bind, Clause.exec] at hr⟩

omit [Holds α] [m.Nesting] in
instance (priority := high) nests_pure_bind (a : α) (f : α → Clause β) [h : Nests m g lo hi next (f a)] :
    Nests m g lo hi next (pure a >>= f) := ⟨fun c s b t hs hcount hnext hlo hr => h.nests c s b t hs hcount hnext hlo hr⟩

omit [Holds α] [m.Nesting] in
instance (priority := high) nests_value_bind (a : α) (f : α → Clause β) [Nests m g lo hi next (f a)] :
    Nests m g lo hi next (Clause.pure a >>= f) := nests_pure_bind a f

omit [Holds α] [Holds σ] [m.Nesting] in
instance (priority := high) nests_bind_bind (p : Clause σ) (f : σ → Clause α) (f' : α → Clause β)
    [h : Nests m g lo hi next (p >>= fun a => f a >>= f')] : Nests m g lo hi next ((p >>= f) >>= f') := by
  refine ⟨fun c s b t hs hcount hnext hlo hr => h.nests c s b t hs hcount hnext hlo ?_⟩
  simp only [Bind.bind, Clause.exec] at hr ⊢
  cases hp : p.exec m.call m.limit c s with
  | read a u => simpa only [hp] using hr
  | failed fault u => simp [hp] at hr

omit [Holds α] [m.Nesting] in
instance nests_ite_bind (p : Prop) [Decidable p] (a b : Clause α) (f : α → Clause β)
    [ha : Nests m g lo hi next (a >>= f)] [hb : Nests m g lo hi next (b >>= f)] :
    Nests m g lo hi next ((if p then a else b) >>= f) := by
  split
  · exact ha
  · exact hb

omit [Holds α] [m.Nesting] in
instance (priority := high) nests_ite_true_bind [Decidable (true = true)] (a b : Clause α) (f : α → Clause β)
    [h : Nests m g lo hi next (a >>= f)] : Nests m g lo hi next ((if true = true then a else b) >>= f) := by
  rwa [if_pos rfl]

omit [Holds α] [m.Nesting] in
instance (priority := high) nests_ite_false_bind [Decidable (false = true)] (a b : Clause α) (f : α → Clause β)
    [h : Nests m g lo hi next (b >>= f)] : Nests m g lo hi next ((if false = true then a else b) >>= f) := by
  rwa [if_neg Bool.false_ne_true]

theorem nests_decide {p : Clause Bool} [Peeks p] {f : Bool → Clause β} [h : Nests m g lo hi next (f true)]
    [e : Nests m g lo hi next (f false)] : Nests m g lo hi next (p >>= f) :=
  nests_peek p f (h := Bool.forall_bool.2 ⟨e, h⟩)

/-- What comes after a clause may rely on the trees that the clause has yielded, on the tokens it has taken,
and on what else is known of its value. -/
theorem nests_next_of {p : Clause α} {f : α → Clause β} {Q : α → Nat → Prop} [hmoves : Moves m p strict]
    (h : Nests m k lo hi next p)
    (hq : ∀ c s a t, s.Regular → s.count = hi → p.exec m.call m.limit c s = .read a t → Q a t.count)
    (hf : ∀ (n : Onward strict hi) (a : Fitted (k.Of lo n.val) α), Q a.val n.val → Nests m g lo n.val none (f a.val)) :
    Nests m g lo hi next (p >>= f) := by
  refine ⟨fun c s b t hs hcount hnext hlo hr => ?_⟩
  obtain ⟨a, u, hu, hr⟩ := Machine.exec_bind hr
  have hproceed := m.proceeds_of_read hu
  have ha := h.nests c s a u hs hcount hnext hlo hu
  obtain ⟨hle, hlt⟩ := onward_of_read hs hu
  rw [hcount] at hle hlt
  exact (hf ⟨u.count, hle, hlt⟩ ⟨a, ha⟩ (hq c s a u hs hcount hu)).nests c u b t (hproceed.regular hs) rfl
    (State.next_none u) (Nat.le_trans hlo hle) hr

theorem nests_next {p : Clause α} {f : α → Clause β} [hmoves : Moves m p strict] (h : Nests m k lo hi next p)
    (hf : ∀ (n : Onward strict hi) (a : Fitted (k.Of lo n.val) α), Nests m g lo n.val none (f a.val)) :
    Nests m g lo hi next (p >>= f) :=
  nests_next_of (Q := fun _ _ => True) h (fun _ _ _ _ _ _ _ => trivial) fun n a _ => hf n a

/-- The same for a clause that is known to have read trees from some later token on. -/
theorem nests_from {p : Clause α} {f : α → Clause β} [hmoves : Moves m p strict] [hl : AtMost l hi]
    (h : Nests m k l hi next p)
    (hf : ∀ (n : Onward strict hi) (a : Fitted (k.Of l n.val) α), Nests m g lo n.val none (f a.val)) :
    Nests m g lo hi next (p >>= f) := by
  refine ⟨fun c s b t hs hcount hnext hlo hr => ?_⟩
  obtain ⟨a, u, hu, hr⟩ := Machine.exec_bind hr
  have hproceed := m.proceeds_of_read hu
  have ha := h.nests c s a u hs hcount hnext hl.le hu
  obtain ⟨hle, hlt⟩ := onward_of_read hs hu
  rw [hcount] at hle hlt
  exact (hf ⟨u.count, hle, hlt⟩ ⟨a, ha⟩).nests c u b t (hproceed.regular hs) rfl (State.next_none u)
    (Nat.le_trans hlo hle) hr

/-- The same for a clause that yields no trees. -/
theorem nests_then {p : Clause α} {f : α → Clause β} [Treeless α] [Moves m p strict]
    (hf : ∀ (n : Onward strict hi) (a : α), Nests m g lo n.val none (f a)) : Nests m g lo hi next (p >>= f) :=
  nests_next (k := .any) inferInstance fun n a => hf n a.val

instance nests_bind_treeless (p : Clause α) (f : α → Clause β) [Treeless α] [Moves m p strict]
    [hf : ∀ (n : Onward strict hi) (a : α), Nests m g lo n.val none (f a)] : Nests m g lo hi next (p >>= f) :=
  nests_then hf

instance (priority := low) nests_bind (p : Clause α) (f : α → Clause β) [Moves m p strict] [Reads p k]
    [h : Nests m k lo hi next p]
    [hf : ∀ (n : Onward strict hi) (a : Fitted (k.Of lo n.val) α), Nests m g lo n.val none (f a.val)] :
    Nests m g lo hi next (p >>= f) := nests_next h hf

instance nests_rescued (p : Clause α) (rescue : Clause (Option α)) [hp : Nests m g lo hi next p]
    [hr : ∀ n : Onward false hi, Nests m g lo n.val none rescue] : Nests m g lo hi next (.rescued p rescue) := by
  refine ⟨fun c s a t hs hcount hnext hlo h => ?_⟩
  simp only [Clause.exec] at h
  split at h
  · rename_i hu
    cases h
    exact hp.nests c s a t hs hcount hnext hlo hu
  · rename_i fault u hu
    have hproceed : Proceeds s u := by simpa [hu] using m.exec_proceeds p c s
    split at h
    · rename_i b v hv
      cases h
      let n : Onward false hi := ⟨u.count, hcount ▸ hproceed.count_le hs, nofun⟩
      have hb := (hr n).nests c u _ v (hproceed.regular hs) rfl (State.next_none u) (Nat.le_trans hlo n.le) hv
      obtain ⟨noted, hv'⟩ := complain_eq c.silent [fault] v
      rw [hv']
      exact AllTrees.some_iff.1 hb
    · cases h
    · cases h

instance nests_attempt (p : Clause (Option α)) [hp : Nests m g lo hi next p] : Nests m g lo hi next (.attempt p) := by
  refine ⟨fun c s a t hs hcount hnext hlo h => ?_⟩
  simp only [Clause.exec] at h
  split at h
  · rename_i b u hu
    cases h
    exact hp.nests _ s _ t hs hcount hnext hlo hu
  · cases h
    exact AllTrees.none
  · cases h
    exact AllTrees.none

theorem nests_loop {step : σ → Clause (σ ⊕ α)} {start : σ} [h₀ : AllTrees (g.Of lo hi) start]
    (h : ∀ (n : Onward false hi) (x : Fitted (g.Of lo n.val) σ), Nests m g lo n.val none (step x.val)) :
    Nests m g lo hi next (.repeating step start) := by
  refine ⟨fun c s a t hs hcount _ hlo hr => ?_⟩
  let I (x : σ) (s : State) : Prop := s.Regular ∧ hi ≤ s.count ∧ AllTrees (g.Of lo s.count) x
  refine repeated_read (I := I) (Q := fun a t => AllTrees (g.Of lo t.count) a) (fun {x s y t} hx hu => ?_)
    ⟨hs, Nat.le_of_eq hcount.symm, hcount ▸ h₀⟩ hr
  have hproceed := m.proceeds_of_read hu
  have hy := (h ⟨s.count, hx.2.1, nofun⟩ ⟨x, hx.2.2⟩).nests c s y t hx.1 rfl (State.next_none s)
    (Nat.le_trans hlo hx.2.1) hu
  cases y with
  | inl x => exact ⟨hproceed.regular hx.1, Nat.le_trans hx.2.1 (hproceed.count_le hx.1), ⟨hy.sound⟩⟩
  | inr a => exact ⟨hy.sound⟩

instance nests_repeating (step : σ → Clause (σ ⊕ α)) (start : σ) [AllTrees (g.Of lo hi) start]
    [h : ∀ (n : Onward false hi) (x : Fitted (g.Of lo n.val) σ), Nests m g lo n.val none (step x.val)] :
    Nests m g lo hi next (.repeating step start) := nests_loop h

instance nests_collect (p : Clause (Option α)) [h : ∀ n : Onward false hi, Nests m g lo n.val none p] :
    Nests m g lo hi next p.collect := by
  unfold Clause.collect
  refine nests_loop fun n found => nests_next (h n) fun n' a? => ?_
  obtain ⟨a?, ha⟩ := a?
  cases a? with
  | none => exact nests_pure _
  | some a =>
      have := AllTrees.some_iff.1 ha
      exact nests_pure _

instance nests_otherwise (p : Clause (Option α)) (other : Clause α) [h : Nests m g lo hi next p]
    [ho : ∀ n : Onward false hi, Nests m g lo n.val none other] : Nests m g lo hi next (p.otherwise other) := by
  unfold Clause.otherwise
  have : Moves m p false := moves_any p
  refine nests_next h fun n found => ?_
  obtain ⟨found, hf⟩ := found
  cases found with
  | none => exact ho n
  | some a =>
      have := AllTrees.some_iff.1 hf
      exact nests_pure a

instance nests_isolated (p : Clause α) [h : Nests m g lo hi next p] : Nests m g lo hi next p.isolated := by
  unfold Clause.isolated
  refine nests_peeked (fun _ => nests_peeked (fun _ => nests_next h fun n a => inferInstance) ?_) ?_
  all_goals exact m.exec_proceeds _

/-- A rule that is admitted yields trees of its grade. -/
theorem nests_rule {rule : Rule α} (hr : rule.Admitted lo hi) (ht : ∀ a, Holds.trees a = rule.trees a)
    (hg : g.Weaker rule.grade) : Nests m g lo hi next (.rule rule) := by
  refine ⟨fun c s a t hs hcount _ hlo h => ⟨fun tree htree => ?_⟩⟩
  rw [ht] at htree
  have hnested := Machine.Nesting.nested rule lo c s a t hs (hcount ▸ hlo) (hcount ▸ hr) h tree htree
  exact hnested.mono (Nat.le_refl _) (Nat.le_refl _)

omit [Holds α] in
theorem moves_rule {rule : Rule α} (hr : rule.isStrict) : Moves m (.rule rule) true :=
  ⟨fun _ c s a t hs h => Machine.Nesting.strict rule hr c s a t hs h⟩

variable (m g lo hi next)

instance nests_expression [h : g.Weaker .solid] : Nests m g lo hi next Clause.expression :=
  nests_rule trivial (fun _ => rfl) h
instance nests_assignment [h : g.Weaker .solid] : Nests m g lo hi next Clause.assignment :=
  nests_rule trivial (fun _ => rfl) h
instance nests_type [h : g.Weaker .any] : Nests m g lo hi next Clause.type := nests_rule trivial (fun _ => rfl) h
instance nests_rule_binary [h : g.Weaker .solid] : Nests m g lo hi next (.rule .binary) :=
  nests_rule trivial (fun _ => rfl) h
instance nests_rule_unary [h : g.Weaker .solid] : Nests m g lo hi next (.rule .unary) :=
  nests_rule trivial (fun _ => rfl) h
instance nests_rule_leftHandSide [h : g.Weaker .solid] : Nests m g lo hi next (.rule .leftHandSide) :=
  nests_rule trivial (fun _ => rfl) h
instance nests_rule_memberOrNew (isNew : Bool) [h : g.Weaker .solid] :
    Nests m g lo hi next (.rule (.memberOrNew isNew)) := nests_rule trivial (fun _ => rfl) h
instance nests_rule_arguments [h : g.Weaker .any] : Nests m g lo hi next (.rule .arguments) :=
  nests_rule trivial (fun _ => by simp [Holds.trees, Rule.trees]) h
instance nests_rule_object [h : g.Weaker .solid] : Nests m g lo hi next (.rule .object) :=
  nests_rule trivial (fun _ => rfl) h
instance nests_rule_bindingTarget [h : g.Weaker .loose] : Nests m g lo hi next (.rule .bindingTarget) :=
  nests_rule trivial (fun _ => rfl) h
instance nests_rule_parameters [h : g.Weaker .any] : Nests m g lo hi next (.rule .parameters) :=
  nests_rule trivial (fun _ => by simp [Holds.trees, Rule.trees]) h
instance nests_rule_function (first : Nat) (kind : FunctionKind) (wanted : ParameterRule) [h : g.Weaker .any] :
    Nests m g lo hi next (.rule (.function first kind wanted)) := nests_rule trivial (fun _ => rfl) h
instance nests_rule_namedFunction (isExpression nameRequired : Bool) [h : g.Weaker .solid] :
    Nests m g lo hi next (.rule (.namedFunction none isExpression nameRequired)) :=
  nests_rule (fun _ h => nomatch h) (fun _ => rfl) h
instance nests_rule_body (kind : FunctionKind) (simple : Bool) [h : g.Weaker .any] :
    Nests m g lo hi next (.rule (.body kind simple)) := nests_rule trivial (fun _ => rfl) h
instance nests_rule_arrowBody (async simple : Bool) [h : g.Weaker .any] :
    Nests m g lo hi next (.rule (.arrowBody async simple)) := nests_rule trivial (fun _ => rfl) h
instance nests_rule_block [h : g.Weaker .solid] : Nests m g lo hi next (.rule .block) :=
  nests_rule trivial (fun _ => rfl) h
instance nests_rule_plainType [h : g.Weaker .any] : Nests m g lo hi next (.rule .plainType) :=
  nests_rule trivial (fun _ => rfl) h
instance nests_rule_typeOperator [h : g.Weaker .any] : Nests m g lo hi next (.rule .typeOperator) :=
  nests_rule trivial (fun _ => rfl) h
instance nests_rule_importType [h : g.Weaker .any] : Nests m g lo hi next (.rule .importType) :=
  nests_rule trivial (fun _ => rfl) h
instance nests_rule_typeArguments [h : g.Weaker .any] : Nests m g lo hi next (.rule .typeArguments) :=
  nests_rule trivial (fun _ => rfl) h
instance nests_rule_typeParameters [h : g.Weaker .any] : Nests m g lo hi next (.rule .typeParameters) :=
  nests_rule trivial (fun _ => rfl) h
instance nests_rule_result (mark : Sign) [h : g.Weaker .any] : Nests m g lo hi next (.rule (.result mark)) :=
  nests_rule trivial (fun _ => rfl) h
instance nests_rule_statement (declarations topLevel : Bool) [h : g.Weaker .any] :
    Nests m g lo hi next (.rule (.statement declarations topLevel)) := nests_rule trivial (fun _ => rfl) h
instance nests_rule_moduleBlock [h : g.Weaker .any] : Nests m g lo hi next (.rule .moduleBlock) :=
  nests_rule trivial (fun _ => rfl) h

variable {m g lo hi next}

instance nests_rule_asyncFunction (first : Nat) (isExpression nameRequired : Bool) [hlo : AtMost lo first]
    [hhi : AtMost first hi] [h : g.Weaker .solid] :
    Nests m g lo hi next (.rule (.namedFunction (some first) isExpression nameRequired)) :=
  nests_rule (by rintro _ ⟨⟩; exact ⟨hlo.le, hhi.le⟩) (fun _ => rfl) h

instance nests_rule_classTail (first : Nat) (nameRequired : Bool) [hlo : AtMost lo first] [hhi : AtMost first hi]
    [h : g.Weaker .solid] : Nests m g lo hi next (.rule (.classTail first nameRequired)) :=
  nests_rule ⟨hlo.le, hhi.le⟩ (fun _ => rfl) h

instance nests_rule_namespaceTail (first : Nat) [hlo : AtMost lo first] [hhi : AtMost first hi] [h : g.Weaker .solid] :
    Nests m g lo hi next (.rule (.namespaceTail first)) := nests_rule ⟨hlo.le, hhi.le⟩ (fun _ => rfl) h

instance nests_rule_binaryTail (left : Tree) (least : Nat) [hleft : AllTrees (Grade.solid.Of lo hi) left]
    [h : g.Weaker .solid] : Nests m g lo hi next (.rule (.binaryTail left least)) :=
  nests_rule hleft (fun _ => rfl) h

instance nests_rule_asPattern (target element : Bool) (tree : Tree) [htree : AllTrees (Grade.any.Of lo hi) tree]
    [h : g.Weaker .loose] : Nests m g lo hi next (.rule (.asPattern target element tree)) :=
  nests_rule htree (fun _ => rfl) h

instance nests_rule_subscripts (first : Nat) (callee : Callee) (noCall noIndex : Bool) [hlo : AtMost lo first]
    [hhi : Below first hi] [hcallee : AllTrees (Grade.solid.Of first hi) callee] [h : g.Weaker .solid] :
    Nests m g lo hi next (.rule (.subscripts first callee noCall noIndex)) :=
  nests_rule ⟨hlo.le, hhi.lt, hcallee⟩ (fun _ => rfl) h

variable (m)

instance moves_expression : Moves m Clause.expression true := moves_rule rfl
instance moves_assignment : Moves m Clause.assignment true := moves_rule rfl
instance moves_rule_binary : Moves m (.rule .binary) true := moves_rule rfl
instance moves_rule_unary : Moves m (.rule .unary) true := moves_rule rfl
instance moves_rule_leftHandSide : Moves m (.rule .leftHandSide) true := moves_rule rfl
instance moves_rule_memberOrNew (isNew : Bool) : Moves m (.rule (.memberOrNew isNew)) true := moves_rule rfl
instance moves_rule_arguments : Moves m (.rule .arguments) true := moves_rule rfl
instance moves_rule_object : Moves m (.rule .object) true := moves_rule rfl
instance moves_rule_function (first : Nat) (kind : FunctionKind) (wanted : ParameterRule) :
    Moves m (.rule (.function first kind wanted)) true := moves_rule rfl
instance moves_rule_arrowBody (async simple : Bool) : Moves m (.rule (.arrowBody async simple)) true := moves_rule rfl
instance moves_rule_block : Moves m (.rule .block) true := moves_rule rfl

end Proceed

end Rules

/-! Nodes -/

section Node

variable {m : Machine} {g : Grade} {lo hi : Nat} {next : Option Token}

instance nests_node (shape : Shape) (first : Nat) (children : List Tree) [hlo : AtMost lo first] [hhi : Below first hi]
    [h : AllTrees (Grade.any.Of first hi) children] [g.Weaker .solid] :
    Nests m g lo hi next (Clause.node shape first children) := by
  refine ⟨fun c s a t _ hcount _ _ hr => ?_⟩
  cases hr
  rw [hcount]
  exact AllTrees.solidNode shape first hi children

instance nests_looseNode (shape : Shape) (first : Nat) (children : List Tree) [shape.Part]
    [h : AllTrees (Grade.any.Of lo hi) children] [g.Weaker .loose] :
    Nests m g lo hi next (Clause.node shape first children) := by
  refine ⟨fun c s a t _ hcount _ _ hr => ?_⟩
  cases hr
  rw [hcount]
  exact AllTrees.looseNode shape first hi children

end Node

/-! Clauses that begin by taking a token -/

section Takes

variable {m : Machine} {next : Option Token} {α β σ : Type}

/-- A clause takes a token where the given one comes next. -/
def Takes (m : Machine) (next : Option Token) (p : Clause α) : Prop :=
  ∀ c s a t, s.Regular → s.Next next → p.exec m.call m.limit c s = .read a t → s.count < t.count

theorem Takes.moves {p : Clause α} (h : Takes m none p) : Moves m p true :=
  ⟨fun _ c s a t hs hr => h c s a t hs s.next_none hr⟩

theorem moves_of_solid {p : Clause Tree} (h : ∀ hi, Nests m .solid hi hi none p) : Moves m p true := by
  refine ⟨fun _ c s t u hs hr => ?_⟩
  obtain ⟨lower, filled, upper, -⟩ := AllTrees.tree_iff.1
    ((h s.count).nests c s t u hs rfl s.next_none (Nat.le_refl _) hr)
  omega

theorem takes_of_moves (p : Clause α) [h : Moves m p true] : Takes m next p :=
  fun c s a t hs _ hr => h.moves rfl c s a t hs hr

theorem takes_fail (place : Place) (complaint : Complaint) : Takes m next (.fail place complaint : Clause α) :=
  fun _ _ _ _ _ _ hr => by simp [Clause.exec] at hr

theorem takes_ite {p : Prop} [Decidable p] {a b : Clause α} (ha : Takes m next a) (hb : Takes m next b) :
    Takes m next (if p then a else b) := by
  split
  · exact ha
  · exact hb

variable [m.Nesting]

theorem takes_first {p : Clause α} {f : α → Clause β} (h : Takes m next p) : Takes m next (p >>= f) := by
  intro c s b t hs hnext hr
  obtain ⟨a, u, hu, hr⟩ := Machine.exec_bind hr
  have hregular := (m.proceeds_of_read hu).regular hs
  exact Nat.lt_of_lt_of_le (h c s a u hs hnext hu) ((m.proceeds_of_read hr).count_le hregular)

theorem takes_later {p : Clause α} {f : α → Clause β} (h : ∀ a, Takes m none (f a)) : Takes m next (p >>= f) := by
  intro c s b t hs _ hr
  obtain ⟨a, u, hu, hr⟩ := Machine.exec_bind hr
  have hproceed := m.proceeds_of_read hu
  exact Nat.lt_of_le_of_lt (hproceed.count_le hs) (h a c u b t (hproceed.regular hs) u.next_none hr)

omit [m.Nesting] in
theorem takes_take (token : Token) [token.Live] : Takes m (some token) Clause.take := by
  intro c s _ t _ hnext hr
  cases hr
  obtain ⟨-, htaken⟩ := take_token (c := c) (s := s) (by rw [look_token c hnext]; exact Token.Live.ne_finish)
  omega

theorem takes_peek {p : Clause α} {f : α → Clause β} [hp : Peeks p] (h : ∀ a, Takes m next (f a)) :
    Takes m next (p >>= f) := by
  intro c s b t hs hnext hr
  obtain ⟨a, u, hu, hr⟩ := Machine.exec_bind hr
  obtain ⟨hcount, hnext'⟩ := hp.peeks m c s a u hu
  have := h a c u b t ((m.proceeds_of_read hu).regular hs) (hnext' next hnext) hr
  omega

theorem takes_need {f : Token → Clause β} (h : ∀ (token : Token) [token.Live], Takes m (some token) (f token)) :
    Takes m next (Clause.need >>= f) := by
  intro c s b t hs _ hr
  obtain ⟨token, u, hu, hr⟩ := Machine.exec_bind hr
  have hproceed := m.proceeds_of_read hu
  obtain ⟨rfl, rfl, hlive⟩ := need_read hu
  have : (s.look c).1.token.Live := ⟨hlive⟩
  have := h _ c _ b t (hproceed.regular hs) (next_look c s) hr
  have := (look_eq c s).2
  omega

/-- A step that ends a repetition takes a token. -/
def Ends (m : Machine) (p : Clause (β ⊕ α)) : Prop :=
  ∀ c s a t, s.Regular → p.exec m.call m.limit c s = .read (.inr a) t → s.count < t.count

omit [m.Nesting] in
theorem ends_inl (b : β) : Ends m (pure (.inl b) : Clause (β ⊕ α)) := by
  intro c s a t _ hr
  simp [Pure.pure, Clause.exec] at hr

omit [m.Nesting] in
theorem ends_ite {p : Prop} [Decidable p] {a b : Clause (β ⊕ α)} (ha : Ends m a) (hb : Ends m b) :
    Ends m (if p then a else b) := by
  split
  · exact ha
  · exact hb

theorem ends_later {p : Clause σ} {f : σ → Clause (β ⊕ α)} (h : ∀ b, Ends m (f b)) : Ends m (p >>= f) := by
  intro c s a t hs hr
  obtain ⟨b, u, hu, hr⟩ := Machine.exec_bind hr
  have hproceed := m.proceeds_of_read hu
  exact Nat.lt_of_le_of_lt (hproceed.count_le hs) (h b c u a t (hproceed.regular hs) hr)

theorem ends_eat {s : Sign} {f : Bool → Clause (β ⊕ α)} (h : Ends m (f false)) : Ends m (Clause.eat s >>= f) := by
  intro c u a t hu hr
  obtain ⟨found, v, hv, hr⟩ := Machine.exec_bind hr
  have hproceed := m.proceeds_of_read hv
  cases found with
  | true => exact Nat.lt_of_lt_of_le (moves_eat hv) ((m.proceeds_of_read hr).count_le (hproceed.regular hu))
  | false => exact Nat.lt_of_le_of_lt (hproceed.count_le hu) (h c v a t (hproceed.regular hu) hr)

theorem takes_repeating {step : β → Clause (β ⊕ α)} {start : β} (h : ∀ x, Ends m (step x)) :
    Takes m next (.repeating step start) := by
  intro c s a t hs _ hr
  refine repeated_read (I := fun _ u => u.Regular ∧ s.count ≤ u.count) (Q := fun _ u => s.count < u.count)
    (fun {x u y v} hu hr => ?_) ⟨hs, Nat.le_refl _⟩ hr
  have hproceed := m.proceeds_of_read hr
  cases y with
  | inl x => exact ⟨hproceed.regular hu.1, Nat.le_trans hu.2 (hproceed.count_le hu.1)⟩
  | inr a => exact Nat.lt_of_le_of_lt hu.2 (h x c u a v hu.1 hr)

end Takes

end WebModules.Script
