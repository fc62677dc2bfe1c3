import WebModules.Proofs.Script.Steps
import WebModules.Script.Span

/-!
A reading that heeds some strings of a text: whatever it looks at, also in alternatives that it gives
up, no token has a part of one of the strings in it without being that string, and nothing is asked
about what the strings stand for.  Two such readings go the same way as long as the tokens they look
at are the same but for the strings.
-/

namespace WebModules.Script

variable {α β σ : Type}

/-- The bytes of a token. -/
def Lexeme.span (l : Lexeme) : Span := ⟨l.start, l.stop⟩

/-- Whether a token that is looked for from `pos` on is one of the strings or has no part of any. -/
def Lexeme.heeds (strings : List Span) (pos : Nat) (l : Lexeme) : Bool :=
  strings.all fun string =>
    (l.token == .string && l.span == string) || decide (l.stop ≤ string.start) ||
      decide (string.stop ≤ pos)

/-- Whether a token is none of the strings. -/
def Lexeme.isOther (strings : List Span) (l : Lexeme) : Bool := !strings.contains l.span

/-- Whether what a reading yields, and the state that it ends in, pass a test. -/
def Outcome.allRead (test : α → State → Bool) : Outcome α → Bool
  | .read a s => test a s
  | .failed _ _ => true

/-- Whether the state that a reading gives up in passes a test. -/
def Outcome.allFailed (test : State → Bool) : Outcome α → Bool
  | .read _ _ => true
  | .failed _ s => test s

namespace State

/-- Whether the next token heeds the strings. -/
def heeds (strings : List Span) (c : Context) (s : State) : Bool :=
  (s.look c).1.heeds strings s.place.pos

/-- Whether the next two tokens heed the strings. -/
def heedsAhead (strings : List Span) (c : Context) (s : State) : Bool :=
  s.heeds strings c && (s.lookAhead c).1.heeds strings (s.look c).1.stop

/-- Whether all steps of a repetition pass a test, until one yields a result. -/
def repeatedPasses (step : σ → State → Outcome (σ ⊕ α)) (test : σ → State → Bool) :
    Nat → σ → State → Bool
  | 0, _, _ => false
  | n + 1, x, s =>
    test x s && (step x s).allRead fun next t =>
      next.elim (fun y => repeatedPasses step test n y t) fun _ => true

end State

namespace Clause

/-- Whether reading a clause heeds the strings, where `calls` tells whether reading a rule does. -/
def heeds (strings : List Span) (call : {α : Type} → Rule α → Context → State → Outcome α)
    (calls : {α : Type} → Rule α → Context → State → Bool) (limit : Nat) :
    {α : Type} → Clause α → Context → State → Bool
  | _, .pure _, _, _ => true
  | _, .bind clause next, c, s =>
    heeds strings call calls limit clause c s &&
      (clause.exec call limit c s).allRead fun a t =>
        heeds strings call calls limit (next a) c t
  | _, .current, c, s => s.heeds strings c
  | _, .ahead, c, s => s.heedsAhead strings c
  | _, .lineBreak, c, s => s.heeds strings c
  | _, .lineBreakAhead, c, s => s.heedsAhead strings c
  | _, .adjacent, c, s => s.heeds strings c
  | _, .mark, _, _ => true
  | _, .take, c, s => s.heeds strings c
  | _, .rescan how, c, s => (s.rescan c how).heeds strings c
  | _, .testString number _, _, s => (s.token? number).all fun l => l.isOther strings
  | _, .regexFlags, c, s => s.heeds strings c && (s.look c).1.isOther strings
  | _, .context, _, _ => true
  | _, .within change clause, c, s => heeds strings call calls limit clause (change c) s
  | _, .notes, _, _ => true
  | _, .note _, _, _ => true
  | _, .report _ _, c, s => c.silent || s.heeds strings c
  | _, .fail _ _, c, s => s.heeds strings c
  | _, .failMalformed _, c, s => s.heeds strings c
  | _, .failUncooked _, c, s => s.heeds strings c
  | _, .rescued clause rescue, c, s =>
    heeds strings call calls limit clause c s &&
      (clause.exec call limit c s).allFailed fun t => heeds strings call calls limit rescue c t
  | _, .attempt clause, c, s => heeds strings call calls limit clause { c with silent := true } s
  | _, .foresee clause, c, s => heeds strings call calls limit clause { c with silent := true } s
  | _, .rule named, c, s => calls named c s
  | _, .repeating step start, c, s =>
    State.repeatedPasses (fun x s => (step x).exec call limit c s)
      (fun x s => heeds strings call calls limit (step x) c s) limit start s

/-- Whether reading a rule heeds the strings and needs no more than the limits allow. -/
def heedsRule (strings : List Span) (limit : Nat) :
    Nat → {α : Type} → Rule α → Context → State → Bool
  | 0, _, _, _, _ => false
  | depth + 1, _, named, c, s =>
    heeds strings (execRule limit depth) (heedsRule strings limit depth) limit named.clause c s

end Clause

/-- Whether reading a module heeds the strings, and stays within a limit. -/
def heedsWithin (limit : Nat) (strings : List Span) (start : Cursor) : Bool :=
  Clause.module.heeds strings (Clause.execRule limit limit)
    (Clause.heedsRule strings limit limit) limit {} { place := start }

/-- Two tokens between which the grammar does not tell. -/
structure Lexeme.Like (l l' : Lexeme) : Prop where
  token : l'.token = l.token
  afterLineBreak : l'.afterLineBreak = l.afterLineBreak
  fault : l.token = .malformed → l'.fault?.isSome = l.fault?.isSome

/-- Two readings that yield the same, or both give up, and end in states that a relation holds of. -/
inductive Outcome.Like (r : State → State → Prop) : Outcome α → Outcome α → Prop
  | read (a : α) {s s' : State} (h : r s s') : Like r (.read a s) (.read a s')
  | failed (fault fault' : Fault) {s s' : State} (h : r s s') :
      Like r (.failed fault s) (.failed fault' s')

theorem Outcome.Like.read_of_eq {r : State → State → Prop} {a a' : α} {s s' : State} (ha : a' = a)
    (h : r s s') : Outcome.Like r (.read a s) (.read a' s') := ha ▸ .read a h

/-- A relation between the states of two readings that every step keeps if it heeds the strings. -/
structure Kept (strings : List Span) (r : State → State → Prop) : Prop where
  look : ∀ {s s' c}, r s s' → s.heeds strings c →
    (s.look c).1.Like (s'.look c).1 ∧ r (s.look c).2 (s'.look c).2
  lookAhead : ∀ {s s' c}, r s s' → s.heedsAhead strings c →
    (s.lookAhead c).1.Like (s'.lookAhead c).1 ∧ r (s.lookAhead c).2 (s'.lookAhead c).2
  take : ∀ {s s' c}, r s s' → s.heeds strings c → r (s.take c) (s'.take c)
  rescan : ∀ {s s' c how}, r s s' → (s.rescan c how).heeds strings c →
    r (s.rescan c how) (s'.rescan c how)
  complain : ∀ {s s'} silent {faults faults' : List Fault}, faults'.length = faults.length →
    r s s' → r (s.complain silent faults) (s'.complain silent faults')
  note : ∀ {s s'} (change : Notes → Notes), r s s' →
    r { s with notes := change s.notes } { s' with notes := change s'.notes }
  notes : ∀ {s s'}, r s s' → s'.notes = s.notes
  count : ∀ {s s'}, r s s' → s'.count = s.count
  current : ∀ {s s'}, r s s' →
    Option.Rel (fun l l' => l.lexeme.Like l'.lexeme) s.current? s'.current?
  adjacent : ∀ {s s' c}, r s s' → s.heeds strings c →
    ((s'.look c).1.start == s'.lastStop) = ((s.look c).1.start == s.lastStop)
  string : ∀ {s s' number}, r s s' → (s.token? number).all (fun l => l.isOther strings) →
    Option.Rel (fun l l' => l'.raw = l.raw ∧ l'.value = l.value) (s.token? number)
      (s'.token? number)
  flags : ∀ {s s' c}, r s s' → s.heeds strings c → (s.look c).1.isOther strings →
    (s'.look c).1.value = (s.look c).1.value

theorem look_place (c : Context) (s : State) : (s.look c).2.place = s.place := by
  unfold State.look State.complain
  split
  · rfl
  · dsimp only
    split <;> rfl

theorem look_lastStop (c : Context) (s : State) : (s.look c).2.lastStop = s.lastStop := by
  unfold State.lastStop State.last?
  rw [look_place, (look_eq c s).1]

theorem heeds_look (strings : List Span) (c : Context) (s : State) :
    (s.look c).2.heeds strings c = s.heeds strings c := by
  unfold State.heeds
  rw [look_look, look_place]

namespace Kept

variable {strings : List Span} {r : State → State → Prop} (h : Kept strings r) {s s' : State}
  {c : Context}

include h

theorem faultAt (place : Place) (complaint : Complaint) (hs : r s s') (hc : s.heeds strings c) :
    r (s.faultAt c place complaint).2 (s'.faultAt c place complaint).2 := (h.look hs hc).2

theorem passMalformed (hs : r s s') (hc : s.heeds strings c) :
    r (s.passMalformed c) (s'.passMalformed c) := by
  have hcurrent := h.current hs
  have htake := h.take hs hc
  unfold State.passMalformed
  generalize s.current? = current, s'.current? = current' at hcurrent
  cases hcurrent with
  | none => exact hs
  | some hlike =>
      dsimp only
      rw [hlike.token]
      split
      · rename_i hmalformed
        refine h.complain _ ?_ htake
        rw [Option.length_toList, Option.length_toList, hlike.fault hmalformed]
      · exact hs

theorem passFault (place : Place) (complaint : Complaint) (hs : r s s') (hc : s.heeds strings c) :
    r ((s.faultAt c place complaint).2.passMalformed c)
      ((s'.faultAt c place complaint).2.passMalformed c) := by
  have hnext : (s.look c).2.heeds strings c := (heeds_look strings c s).trans hc
  exact h.passMalformed (h.faultAt place complaint hs hc) hnext

theorem report (place : Place) (complaint : Complaint) (hs : r s s')
    (hc : c.silent || s.heeds strings c) :
    r (s.report c place complaint) (s'.report c place complaint) := by
  unfold State.report
  split
  · exact hs
  · rename_i hsilent
    have hc : s.heeds strings c := (Bool.or_eq_true_iff.1 hc).resolve_left hsilent
    exact h.complain _ rfl (h.passFault place complaint hs hc)

omit h in
theorem repeated {step step' : σ → State → Outcome (σ ⊕ α)} {test : σ → State → Bool}
    (hstep : ∀ x {s s'}, r s s' → test x s → (step x s).Like r (step' x s')) {limit limit' : Nat}
    (hlimit : limit ≤ limit') (x : σ) (hs : r s s')
    (hp : State.repeatedPasses step test limit x s) :
    (State.repeated c step limit x s).Like r (State.repeated c step' limit' x s') := by
  induction limit generalizing limit' x s s' with
  | zero => cases hp
  | succ n ih =>
      obtain ⟨n', rfl⟩ := Nat.exists_eq_add_of_lt hlimit
      rw [State.repeatedPasses, Bool.and_eq_true] at hp
      obtain ⟨hx, hp⟩ := hp
      have hlike := hstep x hs hx
      rw [State.repeated, State.repeated]
      generalize step x s = o, step' x s' = o' at hlike hp
      cases hlike with
      | failed fault fault' ht => exact .failed fault fault' ht
      | read a ht =>
          cases a with
          | inl y => exact ih (Nat.le_add_right n n') y ht hp
          | inr a => exact .read a ht

theorem exec {call call' : {α : Type} → Rule α → Context → State → Outcome α}
    {calls : {α : Type} → Rule α → Context → State → Bool}
    (hcall : ∀ {α : Type} (rule : Rule α) c {s s'}, r s s' → calls rule c s →
      (call rule c s).Like r (call' rule c s')) {limit limit' : Nat} (hlimit : limit ≤ limit')
    (p : Clause α) (c : Context) (hs : r s s') (hp : p.heeds strings call calls limit c s) :
    (p.exec call limit c s).Like r (p.exec call' limit' c s') := by
  induction p generalizing c s s' with
  | pure a => exact .read a hs
  | mark => exact .read_of_eq (h.count hs) hs
  | context => exact .read c hs
  | notes => exact .read_of_eq (h.notes hs) hs
  | note change => exact .read () (h.note change hs)
  | current =>
      obtain ⟨hlike, ht⟩ := h.look hs hp
      exact .read_of_eq hlike.token ht
  | lineBreak =>
      obtain ⟨hlike, ht⟩ := h.look hs hp
      exact .read_of_eq hlike.afterLineBreak ht
  | ahead =>
      obtain ⟨hlike, ht⟩ := h.lookAhead hs hp
      exact .read_of_eq hlike.token ht
  | lineBreakAhead =>
      obtain ⟨hlike, ht⟩ := h.lookAhead hs hp
      exact .read_of_eq hlike.afterLineBreak ht
  | adjacent =>
      simp only [Clause.exec, look_lastStop]
      exact .read_of_eq (h.adjacent hs hp) (h.look hs hp).2
  | regexFlags =>
      obtain ⟨hc, hother⟩ := Bool.and_eq_true_iff.1 hp
      exact .read_of_eq (h.flags hs hc hother) (h.look hs hc).2
  | testString number test =>
      have hstring := h.string hs hp
      simp only [Clause.exec]
      refine .read_of_eq ?_ hs
      generalize s.token? number = found, s'.token? number = found' at hstring
      cases hstring with
      | none => rfl
      | some hsame =>
          obtain ⟨hraw, hvalue⟩ := hsame
          cases test with
          | useStrict => simp only [Lexeme.isUseStrict, hraw]
          | isConstructor => simp only [hvalue]
  | take => exact .read () (h.take hs hp)
  | rescan how => exact .read () (h.rescan hs hp)
  | report place complaint => exact .read () (h.report place complaint hs hp)
  | fail place complaint => exact .failed _ _ (h.passFault place complaint hs hp)
  | failUncooked => exact .failed _ _ (h.faultAt .here .unterminatedTemplate hs hp)
  | failMalformed pass =>
      obtain ⟨hlike, ht⟩ := h.look hs hp
      have hnext : (s.look c).2.heeds strings c := (heeds_look strings c s).trans hp
      simp only [Clause.exec, hlike.token]
      split
      · exact .failed _ _ (h.take ht hnext)
      · exact .failed _ _ ht
  | rule rule => exact hcall rule c hs hp
  | within change p ih => exact ih (change c) hs hp
  | repeating step start ih => exact repeated (fun x _ _ => ih x c) hlimit start hs hp
  | bind p f ihp ihf =>
      obtain ⟨hp, hf⟩ := Bool.and_eq_true_iff.1 hp
      have hlike := ihp c hs hp
      simp only [Clause.exec]
      generalize p.exec call limit c s = o, p.exec call' limit' c s' = o' at hlike hf
      cases hlike with
      | read a ht => exact ihf a c ht hf
      | failed fault fault' ht => exact .failed fault fault' ht
  | rescued p rescue ihp ihr =>
      obtain ⟨hp, hr⟩ := Bool.and_eq_true_iff.1 hp
      have hlike := ihp c hs hp
      simp only [Clause.exec]
      generalize p.exec call limit c s = o, p.exec call' limit' c s' = o' at hlike hr
      cases hlike with
      | read a ht => exact .read a ht
      | failed fault fault' ht =>
          -- the rescue goes on from the state that the clause has failed in
          have hrescue := ihr c ht hr
          rename_i t t'
          dsimp only
          generalize rescue.exec call limit c t = u, rescue.exec call' limit' c t' = u' at hrescue
          cases hrescue with
          | failed other other' hu => exact .failed other other' hu
          | read a hu =>
              cases a with
              | none => exact .failed fault fault' hu
              | some a => exact .read a (h.complain c.silent rfl hu)
  | attempt p ih =>
      have hlike := ih { c with silent := true } hs hp
      simp only [Clause.exec]
      generalize p.exec call limit { c with silent := true } s = o,
        p.exec call' limit' { c with silent := true } s' = o' at hlike
      cases hlike with
      -- what has been tried in vain leaves no trace in the state
      | failed fault fault' ht => exact .read none hs
      | read a ht =>
          cases a with
          | none => exact .read none hs
          | some a => exact .read (some a) ht
  | foresee p ih =>
      have hlike := ih { c with silent := true } hs hp
      simp only [Clause.exec]
      generalize p.exec call limit { c with silent := true } s = o,
        p.exec call' limit' { c with silent := true } s' = o' at hlike
      cases hlike with
      | failed fault fault' ht => exact .failed fault fault' hs
      | read a ht => exact .read a hs

theorem execRule {limit limit' depth depth' : Nat} (hlimit : limit ≤ limit')
    (hdepth : depth ≤ depth') (rule : Rule α) (c : Context) (hs : r s s')
    (hp : Clause.heedsRule strings limit depth rule c s) :
    (Clause.execRule limit depth rule c s).Like r (Clause.execRule limit' depth' rule c s') := by
  induction depth generalizing α depth' c s s' with
  | zero => cases hp
  | succ n ih =>
      obtain ⟨n', rfl⟩ := Nat.exists_eq_add_of_le hdepth
      rw [show n + 1 + n' = (n + n') + 1 by omega]
      exact h.exec (fun rule c _ _ => ih (Nat.le_add_right n n') rule c) hlimit rule.clause c hs hp

end Kept

/-- Two states between which only the faults noted so far differ, but not in number. -/
def State.SameButFaults (s s' : State) : Prop :=
  ∃ faults : List Fault, faults.length = s.faults.length ∧ s' = { s with faults := faults }

namespace State.SameButFaults

variable {s s' : State}

theorem complain (h : s.SameButFaults s') (silent : Bool) {faults faults' : List Fault}
    (hf : faults'.length = faults.length) :
    (s.complain silent faults).SameButFaults (s'.complain silent faults') := by
  obtain ⟨noted, hn, rfl⟩ := h
  unfold State.complain
  split
  · exact ⟨noted, hn, rfl⟩
  · exact ⟨faults'.reverse ++ noted, by simp [hf, hn], rfl⟩

theorem complainSame (h : s.SameButFaults s') (silent : Bool) (faults : List Fault) :
    (s.complain silent faults).SameButFaults (s'.complain silent faults) :=
  h.complain silent rfl

theorem look (h : s.SameButFaults s') (c : Context) :
    (s'.look c).1 = (s.look c).1 ∧ (s.look c).2.SameButFaults (s'.look c).2 := by
  obtain ⟨noted, hn, rfl⟩ := h
  unfold State.look
  dsimp only
  split
  · exact ⟨rfl, noted, hn, rfl⟩
  · obtain ⟨noted', hn', heq⟩ := complainSame ⟨noted, hn, rfl⟩ c.silent
      (Lexer.scan (mode c) (s.count == 0) s.place).faults
    rw [heq]
    exact ⟨rfl, noted', hn', rfl⟩

theorem lookAhead (h : s.SameButFaults s') (c : Context) :
    (s'.lookAhead c).1 = (s.lookAhead c).1 ∧ (s.lookAhead c).2.SameButFaults (s'.lookAhead c).2 := by
  obtain ⟨-, noted, hn, heq⟩ := h.look c
  unfold State.lookAhead
  dsimp only
  rw [heq]
  dsimp only
  split
  · exact ⟨rfl, noted, hn, rfl⟩
  · obtain ⟨noted', hn', heq⟩ := complainSame (s := (s.look c).2) ⟨noted, hn, rfl⟩ c.silent
      (Lexer.scan (mode c) false
        (((s.look c).2.current?.map Looked.after).getD (s.look c).2.place)).faults
    rw [heq]
    exact ⟨rfl, noted', hn', rfl⟩

theorem take (h : s.SameButFaults s') (c : Context) : (s.take c).SameButFaults (s'.take c) := by
  obtain ⟨-, noted, hn, heq⟩ := h.look c
  unfold State.take
  dsimp only
  rw [heq]
  dsimp only
  split
  · exact ⟨noted, hn, rfl⟩
  · split
    · exact ⟨noted, hn, rfl⟩
    · exact ⟨noted, hn, rfl⟩

theorem rescan (h : s.SameButFaults s') (c : Context) (how : Rescan) :
    (s.rescan c how).SameButFaults (s'.rescan c how) := by
  obtain ⟨noted, hn, rfl⟩ := h
  unfold State.rescan
  dsimp only
  obtain ⟨noted', hn', heq⟩ := complainSame ⟨noted, hn, rfl⟩ c.silent
    (Lexer.scan (rescanMode c how) (s.count == 0) s.place).faults
  rw [heq]
  exact ⟨noted', hn', rfl⟩

end State.SameButFaults

theorem Lexeme.Like.of_eq {l l' : Lexeme} (h : l' = l) : l.Like l' :=
  h ▸ ⟨rfl, rfl, fun _ => rfl⟩

theorem optionRel_self {r : α → α → Prop} (h : ∀ a, r a a) (o : Option α) : Option.Rel r o o := by
  cases o with
  | none => exact .none
  | some a => exact .some (h a)

theorem sameButFaults_kept (strings : List Span) : Kept strings State.SameButFaults where
  look h _ := ⟨.of_eq (h.look _).1, (h.look _).2⟩
  lookAhead h _ := ⟨.of_eq (h.lookAhead _).1, (h.lookAhead _).2⟩
  take h _ := h.take _
  rescan h _ := h.rescan _ _
  complain silent _ _ hf h := h.complain silent hf
  note change h := by
    obtain ⟨noted, hn, rfl⟩ := h
    exact ⟨noted, hn, rfl⟩
  notes h := by
    obtain ⟨noted, hn, rfl⟩ := h
    rfl
  count h := by
    obtain ⟨noted, hn, rfl⟩ := h
    rfl
  current h := by
    obtain ⟨noted, hn, rfl⟩ := h
    exact optionRel_self (fun _ => .of_eq rfl) _
  adjacent {_ _ c} h _ := by
    have hlook := (h.look c).1
    obtain ⟨noted, hn, rfl⟩ := h
    rw [hlook]
    rfl
  string h _ := by
    obtain ⟨noted, hn, rfl⟩ := h
    exact optionRel_self (fun _ => ⟨rfl, rfl⟩) _
  flags h _ _ := by rw [(h.look _).1]

theorem parseFrom_eq_ok_iff {origin : Nat} {text : List Char} {p : Parsed} :
    parseFrom origin text = .ok p ↔
      ∃ s, Clause.module.exec (Clause.execRule (readingLimit text) (readingLimit text))
          (readingLimit text) {} { place := ⟨text, origin⟩ } = .read p.tree s ∧
        s.faults = [] ∧ p = ⟨p.tree, s.taken.reverse.toArray⟩ := by
  unfold parseFrom
  dsimp only
  split
  · rename_i hs
    simp [hs]
  · rename_i tree s hs
    rw [hs]
    cases hf : s.faults.getLast? with
    | none =>
        rw [List.getLast?_eq_none_iff] at hf
        constructor
        · rintro ⟨⟩
          exact ⟨s, rfl, hf, rfl⟩
        · rintro ⟨t, ht, -, hp⟩
          obtain ⟨htree, rfl⟩ := Outcome.read.inj ht
          rw [hp, htree]
    | some fault =>
        constructor
        · rintro ⟨⟩
        · rintro ⟨t, ht, hnone, -⟩
          obtain ⟨-, rfl⟩ := Outcome.read.inj ht
          rw [hnone] at hf
          cases hf

/-- Where a text is a module, and reading it heeds the strings, another text that is read alike is
one as well, with the same tree. -/
theorem Kept.parseFrom {strings : List Span} {r : State → State → Prop} (h : Kept strings r)
    {origin origin' limit : Nat} {text text' : List Char} {p : Parsed}
    (hp : parseFrom origin text = .ok p)
    (hstart : r { place := ⟨text, origin⟩ } { place := ⟨text', origin'⟩ })
    (hlimit : limit ≤ readingLimit text) (hlimit' : limit ≤ readingLimit text')
    (hheeds : heedsWithin limit strings ⟨text, origin⟩) :
    ∃ s s', r s s' ∧ s.faults = [] ∧ p.tokens = s.taken.reverse.toArray ∧
      (s'.faults = [] → parseFrom origin' text' = .ok ⟨p.tree, s'.taken.reverse.toArray⟩) := by
  obtain ⟨t, ht, hnone, htokens⟩ := parseFrom_eq_ok_iff.1 hp
  have hsame := (sameButFaults_kept strings).exec
    (fun rule c _ _ => (sameButFaults_kept strings).execRule hlimit hlimit rule c) hlimit
    Clause.module {} ⟨[], rfl, rfl⟩ hheeds
  have hlike := h.exec (fun rule c _ _ => h.execRule hlimit' hlimit' rule c) hlimit'
    Clause.module {} hstart hheeds
  rw [ht] at hsame
  generalize Clause.module.exec (Clause.execRule limit limit) limit {} { place := ⟨text, origin⟩ } = o
    at hsame hlike
  cases hsame with
  | @read _ s _ hsame =>
      obtain ⟨noted, hn, rfl⟩ := hsame
      obtain rfl : noted = [] := hnone
      generalize ho : Clause.module.exec (Clause.execRule (readingLimit text') (readingLimit text'))
        (readingLimit text') {} { place := ⟨text', origin'⟩ } = o' at hlike
      cases hlike with
      | @read _ _ s' hs' =>
          refine ⟨s, s', hs', List.eq_nil_of_length_eq_zero hn.symm, congrArg Parsed.tokens htokens,
            fun hnone' => ?_⟩
          exact parseFrom_eq_ok_iff.2 ⟨s', ho, hnone', rfl⟩

end WebModules.Script
