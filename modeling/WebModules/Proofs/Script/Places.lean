import WebModules.Script.Walk
import Mathlib.Data.List.Infix

/-!
The order of a walk.  The records of a walk belong to the nodes of the syntax tree that a walk
records, each after those within it, and the parent of a record is the nearest of these nodes
around it.
-/

namespace WebModules.Script

/-- The part of a tree at a place: the tree itself at the empty place, and a part of the child that
the first number of the place tells at any other one. -/
def Tree.at? : List Nat → Tree → Option Tree
  | [], t => some t
  | i :: place, t => t.children[i]?.bind (Tree.at? place)

/-- The part at a place of one of several trees, the first of which has the number `i`. -/
def Tree.amongFrom (i : Nat) (ts : List Tree) : List Nat → Option Tree
  | [] => Option.none
  | j :: place => if i ≤ j then ts[j - i]?.bind (Tree.at? place) else Option.none

/-- The order in which the parts of a tree are walked: what is within a part comes before it, and so
does what is within an earlier part. -/
def Precedes : List Nat → List Nat → Prop
  | [], _ => False
  | _ :: _, [] => True
  | i :: a, j :: b => i < j ∨ i = j ∧ Precedes a b

/-- Of the given places around another one, `outer` is the nearest. -/
structure Nearest (places : List (List Nat)) (outer place : List Nat) : Prop where
  mem : outer ∈ places
  around : outer <+: place
  ne : outer ≠ place
  nearest : ∀ other ∈ places, other <+: place → other ≠ place → other <+: outer

section Precedes

variable {a b c : List Nat}

theorem precedes_of_prefix (h : b <+: a) (hne : b ≠ a) : Precedes a b := by
  induction b generalizing a with
  | nil =>
      cases a with
      | nil => exact absurd rfl hne
      | cons => exact trivial
  | cons j b ih =>
      obtain ⟨rest, rfl⟩ := h
      exact .inr ⟨rfl, ih (b.prefix_append rest) fun heq => hne (congrArg (j :: ·) heq)⟩

theorem Precedes.not_within (h : Precedes a b) : ¬ a <+: b := by
  induction a generalizing b with
  | nil => exact h.elim
  | cons i a ih =>
      cases b with
      | nil => simp
      | cons j b =>
          rw [List.cons_prefix_cons]
          rintro ⟨rfl, hab⟩
          exact h.elim (Nat.lt_irrefl _) fun h => ih h.2 hab

/-- What stands between a part and a part around it is within the latter. -/
theorem Precedes.prefix_of_between (hab : Precedes a b) (hbc : Precedes b c) (hca : c <+: a) :
    c <+: b := by
  induction c generalizing a b with
  | nil => exact List.nil_prefix
  | cons k c ih =>
      obtain ⟨rest, rfl⟩ := hca
      cases b with
      | nil => exact hbc.elim
      | cons j b =>
          obtain hlt | ⟨rfl, hab⟩ := hab
          · obtain hlt' | ⟨rfl, -⟩ := hbc
            · exact absurd hlt (Nat.lt_asymm hlt')
            · exact absurd hlt (Nat.lt_irrefl _)
          · obtain hlt | ⟨-, hbc⟩ := hbc
            · exact absurd hlt (Nat.lt_irrefl _)
            · exact List.cons_prefix_cons.2 ⟨rfl, ih hab hbc (c.prefix_append rest)⟩

end Precedes

/-- Places with their records: those of all parts that `find` finds and a walk records, in the order of the walk.
A record without a parent among them has the given one; the records are numbered from `start` on. -/
structure Encodes (p : Parsed) (find : List Nat → Option Tree) (start : Nat) (parent : Option Nat)
    (entries : List (List Nat × Record)) : Prop where
  found : ∀ place t, find place = some t → (p.kind? t.shape).isSome → place ∈ entries.map Prod.fst
  sorted : (entries.map Prod.fst).Pairwise Precedes
  node : ∀ e ∈ entries, ∃ t, find e.1 = some t ∧ p.kind? t.shape = some e.2.kind ∧
    (p.tokens ≠ #[] → e.2.span = p.spanOf t)
  parent : ∀ e ∈ entries, (e.2.parent = parent ∧ ∀ other ∈ entries.map Prod.fst, other <+: e.1 → other = e.1) ∨
    ∃ n outer, e.2.parent = some (start + n) ∧ (entries.map Prod.fst)[n]? = some outer ∧
      Nearest (entries.map Prod.fst) outer e.1

theorem Nearest.of_subset {places places' : List (List Nat)} {outer place : List Nat} (h : Nearest places outer place)
    (hsub : places ⊆ places') (hnew : ∀ other ∈ places', other <+: place → other ∈ places) :
    Nearest places' outer place :=
  ⟨hsub h.mem, h.around, h.ne, fun other ho hp => h.nearest other (hnew other ho hp) hp⟩

theorem Nearest.cons {places : List (List Nat)} {outer place : List Nat} (h : Nearest places outer place) (i : Nat) :
    Nearest (places.map (i :: ·)) (i :: outer) (i :: place) := by
  refine ⟨List.mem_map_of_mem h.mem, List.cons_prefix_cons.2 ⟨rfl, h.around⟩, by simpa using h.ne, ?_⟩
  intro other ho hp hne
  obtain ⟨other, hmem, rfl⟩ := List.mem_map.1 ho
  exact List.cons_prefix_cons.2 ⟨rfl, h.nearest other hmem (List.cons_prefix_cons.1 hp).2 (by simpa using hne)⟩

/-- What is within no other place is within the whole only. -/
theorem nearest_nil {places : List (List Nat)} {place : List Nat} (hne : place ≠ [])
    (h : ∀ other ∈ places, other <+: place → other = place) : Nearest (places ++ [[]]) [] place := by
  refine ⟨by simp, List.nil_prefix, hne.symm, fun other ho hp hother => ?_⟩
  rcases List.mem_append.1 ho with ho | ho
  · exact absurd (h other ho hp) hother
  · rw [List.mem_singleton.1 ho]

theorem Nearest.concat_nil {places : List (List Nat)} {outer place : List Nat} (h : Nearest places outer place) :
    Nearest (places ++ [[]]) outer place := by
  refine ⟨List.mem_append_left _ h.mem, h.around, h.ne, fun other ho hp hother => ?_⟩
  rcases List.mem_append.1 ho with ho | ho
  · exact h.nearest other ho hp hother
  · rw [List.mem_singleton.1 ho]
    exact List.nil_prefix

namespace Encodes

variable {p : Parsed} {find find' : List Nat → Option Tree} {start i : Nat} {parent : Option Nat}
  {entries others : List (List Nat × Record)} {shape : Shape} {first stop : Nat} {t : Tree} {ts : List Tree}

theorem nil : Encodes p (Tree.amongFrom i []) start parent [] where
  found place t h _ := by
    cases place with
    | nil => cases h
    | cons j place => simp [Tree.amongFrom] at h
  sorted := .nil
  node := by simp
  parent := by simp

theorem child (h : Encodes p (Tree.at? · t) start parent entries) (i : Nat) :
    Encodes p (Tree.amongFrom i [t]) start parent (entries.map fun e => (i :: e.1, e.2)) := by
  have hplaces : (entries.map fun e => (i :: e.1, e.2)).map Prod.fst = (entries.map Prod.fst).map (i :: ·) := by
    simp
  have hfind (place : List Nat) : Tree.amongFrom i [t] (i :: place) = Tree.at? place t := by
    simp [Tree.amongFrom]
  constructor
  case found =>
    intro place t' ht' hkind
    rw [hplaces]
    cases place with
    | nil => cases ht'
    | cons j place =>
        obtain rfl : j = i := by
          simp only [Tree.amongFrom] at ht'
          split at ht'
          · obtain ⟨_, hchild, -⟩ := Option.bind_eq_some_iff.1 ht'
            have := (List.getElem?_eq_some_iff.1 hchild).1
            simp only [List.length_singleton] at this
            omega
          · cases ht'
        rw [hfind] at ht'
        exact List.mem_map_of_mem (h.found place t' ht' hkind)
  case sorted =>
    rw [hplaces, List.pairwise_map]
    exact h.sorted.imp fun hab => .inr ⟨rfl, hab⟩
  case node =>
    rintro _ he
    obtain ⟨e, hmem, rfl⟩ := List.mem_map.1 he
    simpa only [hfind] using h.node e hmem
  case parent =>
    rintro _ he
    obtain ⟨e, hmem, rfl⟩ := List.mem_map.1 he
    rw [hplaces]
    obtain ⟨hparent, hother⟩ | ⟨n, outer, hparent, hn, houter⟩ := h.parent e hmem
    · refine .inl ⟨hparent, fun other ho hp => ?_⟩
      obtain ⟨inner, hinner, rfl⟩ := List.mem_map.1 ho
      rw [hother inner hinner (List.cons_prefix_cons.1 hp).2]
    · exact .inr ⟨n, i :: outer, hparent, by rw [List.getElem?_map, hn]; rfl, houter.cons i⟩

/-- Trees that stand beside each other are walked one after the other. -/
theorem append {f : List Nat → Option Tree} (h : Encodes p find start parent entries)
    (h' : Encodes p find' (start + entries.length) parent others)
    (hf : ∀ place t, f place = some t ↔ find place = some t ∨ find' place = some t)
    (hbeside : ∀ e ∈ entries, ∀ e' ∈ others, Precedes e.1 e'.1 ∧ ¬ e'.1 <+: e.1) :
    Encodes p f start parent (entries ++ others) := by
  have hapart {a b : List Nat} (ha : a ∈ entries.map Prod.fst) (hb : b ∈ others.map Prod.fst) :
      Precedes a b ∧ ¬ b <+: a := by
    obtain ⟨e, he, rfl⟩ := List.mem_map.1 ha
    obtain ⟨e', he', rfl⟩ := List.mem_map.1 hb
    exact hbeside e he e' he'
  constructor
  case found =>
    intro place t ht hkind
    rw [List.map_append, List.mem_append]
    exact ((hf place t).1 ht).imp (h.found place t · hkind) (h'.found place t · hkind)
  case sorted =>
    rw [List.map_append, List.pairwise_append]
    exact ⟨h.sorted, h'.sorted, fun a ha b hb => (hapart ha hb).1⟩
  case node =>
    intro e he
    obtain he | he := List.mem_append.1 he
    · obtain ⟨t, ht, hnode⟩ := h.node e he
      exact ⟨t, (hf _ t).2 (.inl ht), hnode⟩
    · obtain ⟨t, ht, hnode⟩ := h'.node e he
      exact ⟨t, (hf _ t).2 (.inr ht), hnode⟩
  case parent =>
    intro e he
    rw [List.map_append]
    obtain he | he := List.mem_append.1 he
    · have hplace := List.mem_map_of_mem (f := Prod.fst) he
      have hnew : ∀ other ∈ entries.map Prod.fst ++ others.map Prod.fst, other <+: e.1 → other ∈ entries.map Prod.fst :=
        fun other ho hp => (List.mem_append.1 ho).resolve_right fun ho => (hapart hplace ho).2 hp
      obtain ⟨hparent, hother⟩ | ⟨n, outer, hparent, hn, houter⟩ := h.parent e he
      · exact .inl ⟨hparent, fun other ho hp => hother other (hnew other ho hp) hp⟩
      · refine .inr ⟨n, outer, hparent, ?_, houter.of_subset (List.subset_append_left _ _) hnew⟩
        rw [List.getElem?_append_left (List.getElem?_eq_some_iff.1 hn).1, hn]
    · have hplace := List.mem_map_of_mem (f := Prod.fst) he
      have hnew : ∀ other ∈ entries.map Prod.fst ++ others.map Prod.fst, other <+: e.1 → other ∈ others.map Prod.fst :=
        fun other ho hp => (List.mem_append.1 ho).resolve_left fun ho => Precedes.not_within (hapart ho hplace).1 hp
      obtain ⟨hparent, hother⟩ | ⟨n, outer, hparent, hn, houter⟩ := h'.parent e he
      · exact .inl ⟨hparent, fun other ho hp => hother other (hnew other ho hp) hp⟩
      · refine .inr ⟨entries.length + n, outer, by rw [hparent, Nat.add_assoc], ?_,
          houter.of_subset (List.subset_append_right _ _) hnew⟩
        rw [List.getElem?_append_right (by simp), List.length_map, Nat.add_sub_cancel_left, hn]

theorem cons (h : Encodes p (Tree.at? · t) start parent entries)
    (h' : Encodes p (Tree.amongFrom (i + 1) ts) (start + entries.length) parent others) :
    Encodes p (Tree.amongFrom i (t :: ts)) start parent ((entries.map fun e => (i :: e.1, e.2)) ++ others) := by
  refine (h.child i).append (by simpa using h') ?_ ?_
  · intro place u
    cases place with
    | nil => simp [Tree.amongFrom]
    | cons j place =>
        simp only [Tree.amongFrom]
        obtain hlt | rfl | hlt := Nat.lt_trichotomy i j
        · obtain ⟨n, rfl⟩ := Nat.exists_eq_add_of_lt hlt
          simp [Nat.add_assoc, show i + (n + 1) - (i + 1) = n by omega]
        · simp [Nat.not_succ_le_self]
        · simp [Nat.not_le.2 hlt, show ¬ i + 1 ≤ j by omega]
  · intro e he e' he'
    obtain ⟨e, -, rfl⟩ := List.mem_map.1 he
    obtain ⟨u, hu, -⟩ := h'.node e' he'
    obtain ⟨place, r⟩ := e'
    cases place with
    | nil => cases hu
    | cons j place =>
        simp only [Tree.amongFrom] at hu
        split at hu
        · exact ⟨.inl (by omega), fun hp => by
            have := (List.cons_prefix_cons.1 hp).1
            omega⟩
        · cases hu

theorem find_node (shape : Shape) (first stop : Nat) (children : List Tree) (i : Nat) (place : List Nat) :
    Tree.at? (i :: place) (.node shape first stop children) = Tree.amongFrom 0 children (i :: place) := by
  simp [Tree.amongFrom, Tree.at?, Tree.children]

/-- A node that a walk does not record adds nothing to its children. -/
theorem pass (h : Encodes p (Tree.amongFrom 0 ts) start parent entries) (hkind : p.kind? shape = none) :
    Encodes p (Tree.at? · (.node shape first stop ts)) start parent entries := by
  constructor
  case found =>
    intro place t ht hk
    cases place with
    | nil =>
        cases ht
        simp [Tree.shape, hkind] at hk
    | cons i place => exact h.found _ t (find_node shape first stop ts i place ▸ ht) hk
  case sorted => exact h.sorted
  case node =>
    intro e he
    obtain ⟨t, ht, hnode⟩ := h.node e he
    obtain ⟨place, r⟩ := e
    cases place with
    | nil => cases ht
    | cons i place => exact ⟨t, (find_node shape first stop ts i place).trans ht, hnode⟩
  case parent => exact h.parent

/-- A node that a walk records comes after its children, and is the parent of those that have none among them. -/
theorem enclose {kind : NodeKind} {span : Span}
    (h : Encodes p (Tree.amongFrom 0 ts) start (some (start + entries.length)) entries)
    (hkind : p.kind? shape = some kind) (hspan : p.tokens ≠ #[] → span = p.spanOf (.node shape first stop ts)) :
    Encodes p (Tree.at? · (.node shape first stop ts)) start parent (entries ++ [([], ⟨kind, span, parent⟩)]) := by
  have hne : ∀ e ∈ entries, e.1 ≠ [] := by
    intro e he hnil
    obtain ⟨t, ht, -⟩ := h.node e he
    rw [hnil] at ht
    cases ht
  constructor
  case found =>
    intro place t ht hk
    rw [List.map_append, List.mem_append]
    cases place with
    | nil => exact .inr (List.mem_singleton.2 rfl)
    | cons i place => exact .inl (h.found _ t (find_node shape first stop ts i place ▸ ht) hk)
  case sorted =>
    rw [List.map_append, List.pairwise_append]
    refine ⟨h.sorted, List.pairwise_singleton _ _, fun a ha b hb => ?_⟩
    obtain ⟨e, he, rfl⟩ := List.mem_map.1 ha
    obtain rfl := List.mem_singleton.1 hb
    exact precedes_of_prefix List.nil_prefix (hne e he).symm
  case node =>
    intro e he
    obtain he | he := List.mem_append.1 he
    · obtain ⟨t, ht, hnode⟩ := h.node e he
      obtain ⟨place, r⟩ := e
      cases place with
      | nil => cases ht
      | cons i place => exact ⟨t, (find_node shape first stop ts i place).trans ht, hnode⟩
    · obtain rfl := List.mem_singleton.1 he
      exact ⟨_, rfl, hkind, hspan⟩
  case parent =>
    intro e he
    rw [List.map_append]
    obtain he | he := List.mem_append.1 he
    · right
      obtain ⟨hparent, hother⟩ | ⟨n, outer, hparent, hn, houter⟩ := h.parent e he
      · exact ⟨entries.length, [], hparent, by simp, nearest_nil (hne e he) hother⟩
      · refine ⟨n, outer, hparent, ?_, houter.concat_nil⟩
        rw [List.getElem?_append_left (List.getElem?_eq_some_iff.1 hn).1, hn]
    · obtain rfl := List.mem_singleton.1 he
      exact .inl ⟨rfl, fun other _ hp => List.prefix_nil.1 hp⟩

end Encodes

namespace Outline

mutual

theorem length_recordsFrom (start : Nat) (parent : Option Nat) (o : Outline) :
    (o.recordsFrom start parent).length = o.size :=
  match o with
  | .node kind span children => by
      rw [recordsFrom, size, List.length_append, length_recordsOf start _ children, List.length_singleton]

theorem length_recordsOf (start : Nat) (parent : Option Nat) (os : List Outline) :
    (recordsOf start parent os).length = sizeOfAll os :=
  match os with
  | [] => rfl
  | o :: os => by
      rw [recordsOf, sizeOfAll, List.length_append, length_recordsFrom start parent o,
        length_recordsOf (start + o.size) parent os]

end

theorem recordsOf_append (start : Nat) (parent : Option Nat) (os os' : List Outline) :
    recordsOf start parent (os ++ os') =
      recordsOf start parent os ++ recordsOf (start + sizeOfAll os) parent os' := by
  induction os generalizing start with
  | nil => rfl
  | cons o os ih => rw [List.cons_append, recordsOf, ih, recordsOf, sizeOfAll, Nat.add_assoc, List.append_assoc]

end Outline

variable {p : Parsed}

mutual

/-- The records that a tree adds to a walk are those of its nodes. -/
theorem Tree.encodes (t : Tree) (start : Nat) (parent : Option Nat) :
    ∃ entries, entries.map Prod.snd = Outline.recordsOf start parent (p.outlines t) ∧
      Encodes p (Tree.at? · t) start parent entries :=
  match t with
  | .node shape first stop children => by
      rw [Parsed.outlines]
      cases hkind : p.kind? shape with
      | none =>
          obtain ⟨entries, hentries, h⟩ := Tree.encodesFrom children 0 start parent
          exact ⟨entries, hentries, h.pass hkind⟩
      | some kind =>
          obtain ⟨entries, hentries, h⟩ :=
            Tree.encodesFrom children 0 start (some (start + Outline.sizeOfAll (p.outlinesOf children)))
          have hlength : Outline.sizeOfAll (p.outlinesOf children) = entries.length := by
            rw [← Outline.length_recordsOf start (some _), ← hentries, List.length_map]
          refine ⟨entries ++ [([], ⟨kind, p.spanOf (.node shape first stop children), parent⟩)], ?_, ?_⟩
          · simp [Outline.recordsOf, Outline.recordsFrom, hentries]
          · exact Encodes.enclose (hlength ▸ h) hkind fun _ => rfl

theorem Tree.encodesFrom (ts : List Tree) (i start : Nat) (parent : Option Nat) :
    ∃ entries, entries.map Prod.snd = Outline.recordsOf start parent (p.outlinesOf ts) ∧
      Encodes p (Tree.amongFrom i ts) start parent entries :=
  match ts with
  | [] => ⟨[], rfl, .nil⟩
  | t :: ts => by
      obtain ⟨entries, hentries, h⟩ := Tree.encodes t start parent
      obtain ⟨others, hothers, h'⟩ := Tree.encodesFrom ts (i + 1) (start + entries.length) parent
      refine ⟨_, ?_, h.cons h'⟩
      have hlength : Outline.sizeOfAll (p.outlines t) = entries.length := by
        rw [← Outline.length_recordsOf start parent, ← hentries, List.length_map]
      rw [Parsed.outlinesOf, Outline.recordsOf_append, List.map_append, hlength, ← hothers, ← hentries]
      simp

end

end WebModules.Script
