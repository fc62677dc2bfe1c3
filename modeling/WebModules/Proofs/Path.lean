import Mathlib.Data.List.TakeWhile
import WebModules.Path
import WebModules.Proofs.Text

/-!
The steps that a path takes, and where they lead: what two paths that are joined come to, and what a
path comes to without its last component.
-/

namespace WebModules

namespace Path

/-- The components of a text between slashes. -/
def charSteps (cs : List Char) : List Component := innerComponents (Text.split '/' cs)

/-- The components of a path, less the one that it starts from. -/
def steps (path : String) : List Component := charSteps path.toList

/-- Where a step leads to from a directory. -/
def follow (names : List String) : Component → List String
  | .normal name => names ++ [name]
  | .parent => names.dropLast
  | .root | .current => names

/-- The names that lead to what a path stands for. -/
def place (path : String) : List String := (steps path).foldl follow []

theorem charSteps_append (before after : List Char) :
    charSteps (before ++ '/' :: after) = charSteps before ++ charSteps after := by
  rw [charSteps, Text.split_append_cons]
  exact List.filterMap_append

theorem charSteps_of_notMem {cs : List Char} (h : '/' ∉ cs) : charSteps cs = innerComponents [cs] := by
  rw [charSteps, Text.split_of_notMem h]

@[simp]
theorem charSteps_nil : charSteps [] = [] := rfl

theorem charSteps_concat_slash (cs : List Char) : charSteps (cs ++ ['/']) = charSteps cs := by
  rw [charSteps_append, charSteps_nil, List.append_nil]

theorem charSteps_concat_dot (cs : List Char) : charSteps (cs ++ ['/', '.']) = charSteps cs := by
  have hdot : charSteps ['.'] = [] := rfl
  rw [charSteps_append, hdot, List.append_nil]

theorem innerComponents_singleton {part : List Char} (hne : part ≠ []) (hdot : part ≠ ['.'])
    (hdots : part ≠ ['.', '.']) : innerComponents [part] = [.normal (String.ofList part)] := by
  simp [innerComponents, hne, hdot, hdots]

theorem mem_innerComponents {parts : List (List Char)} {c : Component} (h : c ∈ innerComponents parts) :
    c ≠ .root ∧ c ≠ .current := by
  obtain ⟨part, -, hpart⟩ := List.mem_filterMap.1 h
  split at hpart
  · cases hpart
  · split at hpart <;> cases hpart <;> simp

theorem isAbsolute_iff {path : String} : isAbsolute path = true ↔ ∃ rest, path.toList = '/' :: rest := by
  rw [isAbsolute]
  cases path.toList <;> simp

theorem isAbsolute_of_notMem {path : String} (h : '/' ∉ path.toList) : isAbsolute path = false := by
  rw [Bool.eq_false_iff]
  intro hslash
  obtain ⟨rest, hrest⟩ := isAbsolute_iff.1 hslash
  exact h (hrest ▸ List.mem_cons_self)

theorem steps_push {other : String} (h : isAbsolute other = false) (path : String) :
    steps (push path other) = steps path ++ steps other := by
  rw [push, if_neg (by simp [h])]
  split
  · rename_i hend
    rcases Bool.or_eq_true_iff.1 hend with hempty | hslash
    · rw [String.isEmpty_iff.1 hempty, String.empty_append]
      rfl
    · obtain ⟨before, hbefore⟩ := List.getLast?_eq_some_iff.1 (beq_iff_eq.1 hslash)
      rw [steps, steps, String.toList_append, hbefore, charSteps_concat_slash, List.append_assoc,
        List.singleton_append, charSteps_append]
      rfl
  · rw [steps, String.toList_append, String.toList_append, List.append_assoc]
    exact charSteps_append _ _

theorem steps_pushAll {others : List String} (h : ∀ other ∈ others, isAbsolute other = false) (path : String) :
    steps (pushAll path others) = steps path ++ others.flatMap steps := by
  induction others generalizing path with
  | nil => simp [pushAll]
  | cons other others ih =>
      have hrest := ih (fun other ho => h other (List.mem_cons_of_mem _ ho)) (push path other)
      rw [pushAll] at hrest ⊢
      rw [List.foldl_cons, hrest, steps_push (h other List.mem_cons_self), List.flatMap_cons,
        List.append_assoc]

theorem steps_pushAll_parts {parts : List (List Char)} (h : ∀ part ∈ parts, '/' ∉ part) (path : String) :
    steps (pushAll path (parts.map String.ofList)) = steps path ++ innerComponents parts := by
  have habsolute : ∀ other ∈ parts.map String.ofList, isAbsolute other = false := by
    intro other ho
    obtain ⟨part, hpart, rfl⟩ := List.mem_map.1 ho
    exact isAbsolute_of_notMem (by simpa using h part hpart)
  rw [steps_pushAll habsolute]
  congr 1
  clear habsolute
  induction parts with
  | nil => rfl
  | cons part parts ih =>
      have hstep : steps (String.ofList part) = innerComponents [part] := by
        rw [steps, String.toList_ofList, charSteps_of_notMem (h part List.mem_cons_self)]
      rw [List.map_cons, List.flatMap_cons, hstep, ih fun other ho => h other (List.mem_cons_of_mem _ ho)]
      exact List.filterMap_append.symm

theorem getLast?_place {path last : String} (h : (steps path).getLast? = some (.normal last)) :
    (place path).getLast? = some last := by
  obtain ⟨before, hbefore⟩ := List.getLast?_eq_some_iff.1 h
  rw [place, hbefore, List.foldl_append]
  exact List.getLast?_concat

/-- A path that ends in a text without slashes ends in a name that this text is the end of. -/
theorem getLast?_steps {path : String} {before cs : List Char} (h : path.toList = before ++ cs)
    (hs : '/' ∉ cs) (hl : 2 < cs.length) :
    ∃ part, (steps path).getLast? = some (.normal (String.ofList (part ++ cs))) := by
  obtain ⟨parts, part, hsplit⟩ := Text.split_append hs before
  have hlong : ∀ short : List Char, short.length ≤ 2 → part ++ cs ≠ short := by
    rintro short hshort rfl
    rw [List.length_append] at hshort
    omega
  have hlast : innerComponents [part ++ cs] = [.normal (String.ofList (part ++ cs))] :=
    innerComponents_singleton (hlong [] (by simp)) (hlong ['.'] (by simp)) (hlong ['.', '.'] (by simp))
  have hsteps : steps path = innerComponents parts ++ innerComponents [part ++ cs] := by
    rw [steps, charSteps, h, hsplit]
    exact List.filterMap_append
  exact ⟨part, by rw [hsteps, hlast, List.getLast?_concat]⟩

/-! The path above -/

theorem charSteps_trimmed (fuel : Nat) (reversed : List Char) :
    charSteps (parentChars.trimmed fuel reversed).reverse = charSteps reversed.reverse := by
  fun_induction parentChars.trimmed fuel reversed with
  | case1 reversed => rfl
  | case2 fuel c rest ih => rw [ih, List.reverse_cons (a := '/'), charSteps_concat_slash]
  | case3 fuel rest ih =>
      rw [ih, List.reverse_cons, List.reverse_cons, List.reverse_cons, List.append_assoc,
        List.singleton_append, charSteps_concat_dot, charSteps_concat_slash]
  | case4 fuel reversed hslash hdot => rfl

/-- Nothing is left to be trimmed at the end of a path. -/
def Trimmed (reversed : List Char) : Prop :=
  (∀ c rest, reversed ≠ '/' :: c :: rest) ∧ ∀ rest, reversed ≠ '.' :: '/' :: rest

theorem trimmed_trimmed (fuel : Nat) {reversed : List Char} (h : reversed.length ≤ fuel) :
    Trimmed (parentChars.trimmed fuel reversed) := by
  fun_induction parentChars.trimmed fuel reversed with
  | case1 reversed =>
      rw [List.length_eq_zero_iff.1 (Nat.le_zero.1 h)]
      exact ⟨by simp, by simp⟩
  | case2 fuel c rest ih => exact ih (by simpa using h)
  | case3 fuel rest ih => exact ih (by simpa using h)
  | case4 fuel reversed hslash hdot => exact ⟨hslash, hdot⟩

/-- Up to its last slash a path that is read from its end has one component, or there is no slash. -/
theorem dropWhile_slash (reversed : List Char) :
    '/' ∉ reversed.reverse ∧ reversed.dropWhile (· != '/') = [] ∨
    ∃ last rest, '/' ∉ last.reverse ∧ reversed = last ++ '/' :: rest ∧ reversed.dropWhile (· != '/') = '/' :: rest := by
  have hparts : reversed.takeWhile (· != '/') ++ reversed.dropWhile (· != '/') = reversed :=
    List.takeWhile_append_dropWhile
  have hlast : '/' ∉ (reversed.takeWhile (· != '/')).reverse := by
    intro hmem
    simpa using List.mem_takeWhile_imp (List.mem_reverse.1 hmem)
  cases hrest : reversed.dropWhile (· != '/') with
  | nil =>
      rw [hrest, List.append_nil] at hparts
      rw [hparts] at hlast
      exact .inl ⟨hlast, rfl⟩
  | cons c rest =>
      obtain rfl : c = '/' := by
        have hhead := List.head?_dropWhile_not (· != '/') reversed
        rw [hrest] at hhead
        simpa using hhead
      rw [hrest] at hparts
      exact .inr ⟨_, rest, hlast, hparts.symm, rfl⟩

theorem charSteps_singleton {cs : List Char} (hs : '/' ∉ cs) (hne : cs ≠ []) (hdot : cs ≠ ['.']) :
    ∃ step, charSteps cs = [step] := by
  rw [charSteps_of_notMem hs]
  by_cases hdots : cs = ['.', '.']
  · exact ⟨.parent, by rw [hdots]; rfl⟩
  · exact ⟨_, innerComponents_singleton hne hdot hdots⟩

/-- Without its last component a path takes all steps but the last. -/
theorem charSteps_parentChars (cs : List Char) : charSteps (parentChars cs) = (charSteps cs).dropLast := by
  rw [parentChars]
  have hsame := charSteps_trimmed cs.length cs.reverse
  have htrimmed := trimmed_trimmed cs.length (Nat.le_of_eq List.length_reverse)
  generalize parentChars.trimmed cs.length cs.reverse = reversed at hsame htrimmed
  rw [List.reverse_reverse] at hsame
  rw [charSteps_trimmed, ← hsame]
  rcases dropWhile_slash reversed with ⟨hslash, hrest⟩ | ⟨last, rest, hslash, hparts, hrest⟩
  · rw [hrest, charSteps_of_notMem hslash, innerComponents, List.filterMap_cons]
    split <;> rfl
  · rw [hrest, hparts, List.reverse_append, List.reverse_cons, List.append_assoc, List.singleton_append,
      charSteps_append, charSteps_nil, List.append_nil, charSteps_append]
    cases last with
    | nil =>
        cases rest with
        | nil => rfl
        | cons c rest => exact absurd hparts (htrimmed.1 c rest)
    | cons c last =>
        have hdot : (c :: last).reverse ≠ ['.'] := by
          intro heq
          have hdotted : c :: last = ['.'] := List.reverse_eq_iff.1 heq
          rw [hdotted] at hparts
          exact htrimmed.2 rest hparts
        obtain ⟨step, hstep⟩ := charSteps_singleton hslash (by simp) hdot
        rw [hstep, List.dropLast_concat]

theorem steps_parent {path parent : String} (h : parent? path = some parent) :
    steps parent = (steps path).dropLast := by
  rw [parent?] at h
  split at h
  · cases h
  · cases h
  · cases h
    rw [steps, String.toList_ofList, charSteps_parentChars]
    rfl

/-! Where a path starts -/

/-- What a text starts from: the root, a dot, or nothing that is written. -/
def charStart (cs : List Char) : List Component :=
  if cs.head? == some '/' then [.root]
  else if (Text.split '/' cs).head? = some ['.'] then [.current] else []

def start (path : String) : List Component := charStart path.toList

theorem components_eq (path : String) : components path = start path ++ steps path := rfl

theorem mem_steps {path : String} {c : Component} (h : c ∈ steps path) : c ≠ .root ∧ c ≠ .current :=
  mem_innerComponents h

theorem normal_notMem_start (path name : String) : .normal name ∉ start path := by
  rw [start, charStart]
  split
  · simp
  · split <;> simp

theorem start_append_inj {p q : String} {cs cs' : List Component} (hcs : ∀ c ∈ cs, c ≠ .root ∧ c ≠ .current)
    (hcs' : ∀ c ∈ cs', c ≠ .root ∧ c ≠ .current) (h : start p ++ cs = start q ++ cs') :
    start p = start q ∧ cs = cs' := by
  have hstart (path : String) : (start path).filter (fun c => c ≠ .root ∧ c ≠ .current) = [] := by
    rw [start, charStart]
    split
    · rfl
    · split <;> rfl
  have hsame := congrArg (List.filter fun c => c ≠ .root ∧ c ≠ .current) h
  rw [List.filter_append, List.filter_append, hstart, hstart, List.nil_append, List.nil_append,
    List.filter_eq_self.2 (by simpa using hcs), List.filter_eq_self.2 (by simpa using hcs')] at hsame
  rw [hsame] at h
  exact ⟨List.append_cancel_right h, hsame⟩

theorem same_iff {p q : String} : same p q = true ↔ start p = start q ∧ steps p = steps q := by
  rw [same, beq_iff_eq, components_eq, components_eq]
  constructor
  · exact start_append_inj (fun _ => mem_steps) fun _ => mem_steps
  · rintro ⟨hstart, hsteps⟩
    rw [hstart, hsteps]

/-- A path with the same components takes the same steps. -/
theorem steps_eq_of_same {p q : String} (h : same p q = true) : steps p = steps q := (same_iff.1 h).2

/-- What has no slash starts nowhere, unless it is a dot. -/
theorem charStart_of_notMem {cs : List Char} (hslash : '/' ∉ cs) (hdot : cs ≠ ['.']) : charStart cs = [] := by
  have habsolute : (cs.head? == some '/') = false :=
    beq_eq_false_iff_ne.2 fun hhead => hslash (List.mem_of_mem_head? hhead)
  rw [charStart, habsolute, Text.split_of_notMem hslash, if_neg Bool.false_ne_true, if_neg]
  exact fun hhead => hdot (Option.some.inj hhead)

theorem charStart_append_slash {before : List Char} (h : before ≠ []) (after : List Char) :
    charStart (before ++ '/' :: after) = charStart before := by
  rw [charStart, charStart, List.head?_append_of_ne_nil _ h, Text.split_append_cons,
    List.head?_append_of_ne_nil _ (Text.split_ne_nil _ _)]

theorem start_push {path other : String} (hp : path ≠ "") (h : isAbsolute other = false) :
    start (push path other) = start path := by
  have hne : path.toList ≠ [] := by simpa using hp
  have hempty : path.isEmpty = false := by simpa using hp
  rw [push, if_neg (by simp [h]), hempty, Bool.false_or]
  split
  · rename_i hend
    obtain ⟨before, hbefore⟩ := List.getLast?_eq_some_iff.1 (beq_iff_eq.1 hend)
    rw [start, start, String.toList_append, hbefore, List.append_assoc, List.singleton_append]
    cases before with
    | nil => rfl
    | cons c before => rw [charStart_append_slash (by simp), charStart_append_slash (by simp)]
  · rw [start, String.toList_append, String.toList_append, List.append_assoc]
    exact charStart_append_slash hne _

theorem push_empty {other : String} (h : isAbsolute other = false) : push "" other = other := by
  rw [push, if_neg (by simp [h])]
  simp

theorem push_ne_empty {path : String} (hp : path ≠ "") (other : String) : push path other ≠ "" := by
  rw [push]
  split
  · rename_i hslash
    rintro rfl
    exact absurd hslash (by decide)
  · split <;> simp [hp]

theorem components_push {path other : String} (hp : path ≠ "") (h : isAbsolute other = false) :
    components (push path other) = components path ++ steps other := by
  rw [components_eq, start_push hp h, steps_push h, components_eq, List.append_assoc]

/-- Where the first of some paths starts that is not empty. -/
def firstStart : List String → List Component
  | [] => []
  | path :: paths => if path = "" then firstStart paths else start path

theorem firstStart_cons {path : String} (h : path ≠ "") (paths : List String) :
    firstStart (path :: paths) = start path :=
  if_neg h

theorem firstStart_empty (paths : List String) : firstStart ("" :: paths) = firstStart paths := if_pos rfl

theorem start_pushAll {others : List String} (h : ∀ other ∈ others, isAbsolute other = false) (path : String) :
    start (pushAll path others) = firstStart (path :: others) := by
  induction others generalizing path with
  | nil =>
      rw [firstStart]
      split
      · rename_i hempty
        rw [hempty]
        rfl
      · rfl
  | cons other others ih =>
      obtain ⟨hother, hothers⟩ := List.forall_mem_cons.1 h
      rw [pushAll, List.foldl_cons, ← pushAll, ih hothers]
      by_cases hp : path = ""
      · rw [hp, push_empty hother, firstStart_empty]
      · rw [firstStart_cons (push_ne_empty hp other), firstStart_cons hp, start_push hp hother]

theorem firstStart_append_congr {others others' : List String} (h : firstStart others = firstStart others')
    (paths : List String) : firstStart (paths ++ others) = firstStart (paths ++ others') := by
  induction paths with
  | nil => exact h
  | cons path paths ih => rw [List.cons_append, List.cons_append, firstStart, firstStart, ih]

theorem firstStart_filter (paths : List String) :
    firstStart (paths.filter fun path => !path.isEmpty) = firstStart paths := by
  induction paths with
  | nil => rfl
  | cons path paths ih =>
      by_cases hp : path = ""
      · rw [hp, firstStart_empty]
        exact ih
      · rw [List.filter_cons_of_pos (by simpa using hp), firstStart_cons hp, firstStart_cons hp]

theorem eq_empty_of_components {path : String} (h : components path = []) : path = "" := by
  obtain ⟨hstart, hsteps⟩ := List.append_eq_nil_iff.1 ((components_eq path).symm.trans h)
  rw [start, charStart] at hstart
  rw [steps, charSteps] at hsteps
  cases hcs : path.toList with
  | nil => exact String.toList_inj.1 hcs
  | cons c cs =>
      rw [hcs] at hstart hsteps
      split at hstart
      · cases hstart
      · rename_i hslash
        have hne : c ≠ '/' := by
          rintro rfl
          exact hslash rfl
        obtain ⟨part, parts, hsplit⟩ := Text.split_cons_of_ne hne cs
        rw [hsplit] at hstart hsteps
        split at hstart
        · cases hstart
        · rename_i hdot
          rw [innerComponents, List.filterMap_cons] at hsteps
          split at hsteps
          · rename_i hnone
            split at hnone
            · rename_i hpart
              exact hpart.elim nofun fun hpart => absurd (congrArg some hpart) hdot
            · split at hnone <;> cases hnone
          · cases hsteps

/-! What is left of a path -/

theorem strip_append (start cs : List Component) : componentsAfter?.strip start (start ++ cs) = some cs := by
  induction start with
  | nil => rfl
  | cons c start ih => rw [List.cons_append, componentsAfter?.strip, if_pos rfl, ih]

theorem strip_eq_some {start cs rest : List Component} (h : componentsAfter?.strip start cs = some rest) :
    cs = start ++ rest := by
  fun_induction componentsAfter?.strip start cs with
  | case1 cs => exact Option.some.inj h
  | case2 start c cs ih => rw [ih h, List.cons_append]
  | case3 | case4 => cases h

/-! Names -/

/-- A name leads down from a directory. -/
structure IsName (name : String) : Prop where
  slash : '/' ∉ name.toList
  nonempty : name.toList ≠ []
  dot : name.toList ≠ ['.']
  dots : name.toList ≠ ['.', '.']

theorem isName_iff {name : String} :
    IsName name ↔ '/' ∉ name.toList ∧ name.toList ≠ [] ∧ name.toList ≠ ['.'] ∧ name.toList ≠ ['.', '.'] :=
  ⟨fun ⟨hslash, hnonempty, hdot, hdots⟩ => ⟨hslash, hnonempty, hdot, hdots⟩,
    fun ⟨hslash, hnonempty, hdot, hdots⟩ => ⟨hslash, hnonempty, hdot, hdots⟩⟩

instance (name : String) : Decidable (IsName name) := decidable_of_iff' _ isName_iff

theorem IsName.innerComponents {name : String} (h : IsName name) : innerComponents [name.toList] = [.normal name] := by
  rw [innerComponents_singleton h.nonempty h.dot h.dots, String.ofList_toList]

theorem IsName.start {name : String} (h : IsName name) : start name = [] := charStart_of_notMem h.slash h.dot

theorem isName_of_mem_steps {path name : String} (h : .normal name ∈ steps path) : IsName name := by
  obtain ⟨part, hpart, hname⟩ := List.mem_filterMap.1 h
  split at hname
  · cases hname
  · rename_i hne
    rw [not_or] at hne
    split at hname
    · cases hname
    · rename_i hdots
      cases hname
      constructor
      · rw [String.toList_ofList]
        exact Text.notMem_of_mem_split hpart
      · simpa using hne.1
      · simpa using hne.2
      · simpa using hdots

theorem normalName?_eq_some {c : Component} {name : String} : normalName? c = some name ↔ c = .normal name := by
  cases c <;> simp [normalName?]

theorem filterMap_names (names : List String) : (names.map Component.normal).filterMap normalName? = names := by
  rw [List.filterMap_map]
  exact List.filterMap_some

theorem isName_of_mem_components {path name : String} (h : .normal name ∈ components path) : IsName name := by
  rw [components_eq, List.mem_append] at h
  exact isName_of_mem_steps (h.resolve_left (normal_notMem_start _ _))

theorem isName_of_fileName? {path name : String} (h : fileName? path = some name) : IsName name := by
  obtain ⟨c, hlast, hc⟩ := Option.bind_eq_some_iff.1 h
  obtain rfl := normalName?_eq_some.1 hc
  exact isName_of_mem_components (List.mem_of_getLast? hlast)

theorem notMem_stemOfName {name : String} (h : '/' ∉ name.toList) : '/' ∉ (stemOfName name).toList := by
  rw [stemOfName]
  split
  · rename_i before after hsplit
    split
    · exact h
    · rw [Text.splitLast?_eq_some hsplit, List.mem_append, not_or] at h
      rw [String.toList_ofList]
      exact h.1
  · exact h

theorem IsName.steps {name : String} (h : IsName name) : steps name = [.normal name] := by
  rw [Path.steps, charSteps_of_notMem h.slash, h.innerComponents]

theorem IsName.components_push {name : String} (h : IsName name) (path : String) :
    components (push path name) = components path ++ [.normal name] := by
  have hslash := isAbsolute_of_notMem h.slash
  rw [← h.steps]
  by_cases hpath : path = ""
  · rw [hpath, push_empty hslash, components_eq, h.start]
    rfl
  · exact Path.components_push hpath hslash

theorem components_pushAll {names : List String} (h : ∀ name ∈ names, IsName name) (path : String) :
    components (pushAll path names) = components path ++ names.map .normal := by
  induction names generalizing path with
  | nil => exact (List.append_nil _).symm
  | cons name names ih =>
      obtain ⟨hname, hnames⟩ := List.forall_mem_cons.1 h
      rw [pushAll, List.foldl_cons, ← pushAll, ih hnames, hname.components_push, List.append_assoc]
      rfl

theorem pushAll_inj {path : String} {names names' : List String} (h : ∀ name ∈ names, IsName name)
    (h' : ∀ name ∈ names', IsName name) (heq : pushAll path names = pushAll path names') : names = names' := by
  have hcomponents := congrArg components heq
  rw [components_pushAll h, components_pushAll h', List.append_cancel_left_eq] at hcomponents
  exact List.map_injective_iff.2 (fun _ _ => Component.normal.inj) hcomponents

theorem innerComponents_names {names : List String} (h : ∀ name ∈ names, IsName name) :
    innerComponents (names.map String.toList) = names.map .normal := by
  induction names with
  | nil => rfl
  | cons name names ih =>
      obtain ⟨hname, hnames⟩ := List.forall_mem_cons.1 h
      have happend : Path.innerComponents (name.toList :: names.map String.toList) =
          Path.innerComponents [name.toList] ++ Path.innerComponents (names.map String.toList) :=
        List.filterMap_append (l := [name.toList])
      rw [List.map_cons, happend, hname.innerComponents, ih hnames]
      rfl

theorem split_intercalate {names : List String} (hne : names ≠ []) (h : ∀ name ∈ names, IsName name) :
    Text.split '/' (List.intercalate ['/'] (names.map String.toList)) = names.map String.toList := by
  rcases List.eq_nil_or_concat names with rfl | ⟨front, last, rfl⟩
  · exact absurd rfl hne
  · rw [List.concat_eq_append] at h ⊢
    obtain ⟨hfront, hlast⟩ := List.forall_mem_append.1 h
    have hslash : ∀ part ∈ front.map String.toList, '/' ∉ part := by
      intro part hpart
      obtain ⟨name, hname, rfl⟩ := List.mem_map.1 hpart
      exact (hfront name hname).slash
    rw [List.map_append, List.map_singleton, Text.intercalate_slash, Text.split_slashed hslash,
      Text.split_of_notMem (hlast last List.mem_cons_self).slash]

end Path

end WebModules
