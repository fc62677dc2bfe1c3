import Mathlib.Data.List.Infix
import WebModules.Proofs.Manifest

/-!
What calls do to a manifest, one after the other.  They fail, and change nothing, where something else than an object
is in its place; else each one changes the entries that are listed and no other field.
-/

namespace WebModules

/-- Of the elements with a property each is first where it is first of all. -/
theorem eraseDups_filter {α : Type} [BEq α] [LawfulBEq α] (p : α → Bool) (l : List α) :
    (l.filter p).eraseDups = l.eraseDups.filter p := by
  induction hn : l.length using Nat.strongRecOn generalizing l with
  | ind n ih =>
      cases l with
      | nil => rfl
      | cons a as =>
          have hlength : (as.filter fun b => !b == a).length < n := by
            rw [← hn, List.length_cons]
            exact Nat.lt_succ_of_le (List.length_filter_le _ _)
          have hrest := ih _ hlength _ rfl
          rw [List.eraseDups_cons, List.filter_cons, List.filter_cons, ← hrest]
          split
          · rw [List.eraseDups_cons, List.filter_filter, List.filter_filter]
            simp only [Bool.and_comm]
          · rename_i ha
            rw [List.filter_filter]
            refine congrArg _ (List.filter_congr fun b _ => ?_)
            by_cases hb : b = a <;> simp [hb, ha]

namespace Manifest

open FileTree Json PackageRequest

variable {rs : List PackageRequest} {entries : List (String × Json)}

/-! Entries -/

/-- Requests have been added: the entries that were there keep their positions, and new ones follow in the order in
which they are requested first.  An entry holds what its last request asks for, and else what it held before. -/
structure Added (rs : List PackageRequest) (entries entries' : List (String × Json)) : Prop where
  names : entries'.map Prod.fst =
    entries.map Prod.fst ++ (rs.map key).eraseDups.filter fun name => name ∉ entries.map Prod.fst
  named : ∀ r, Last rs r → field? r.key entries' = some (recorded r)
  kept : ∀ (i : Nat) (entry : String × Json), entries[i]? = some entry → entry.1 ∉ rs.map key →
    entries'[i]? = some entry

/-- Requests have been removed: the other entries are left in their order, and the names of those that were there are
told, in the order in which they are requested first. -/
structure Dropped (rs : List PackageRequest) (entries entries' : List (String × Json)) (told : List String) : Prop where
  left : entries' = entries.filter fun entry => entry.1 ∉ rs.map key
  told : told = (rs.map key).eraseDups.filter fun name => name ∈ entries.map Prod.fst

theorem names_foldl_eq (entries : List (String × Json)) (rs : List PackageRequest) :
    (rs.foldl withRequest entries).map Prod.fst =
      entries.map Prod.fst ++ (rs.map key).eraseDups.filter fun name => name ∉ entries.map Prod.fst := by
  induction rs generalizing entries with
  | nil => simp
  | cons r rs ih =>
      rw [List.foldl_cons, ih, List.map_cons, List.eraseDups_cons, eraseDups_filter, withRequest, names_setField]
      split
      · rename_i hmem
        rw [List.filter_cons_of_neg (by simpa using hmem), List.filter_filter]
        refine congrArg _ (List.filter_congr fun name _ => ?_)
        by_cases hname : name = r.key <;> simp [hname, hmem]
      · rename_i hnew
        rw [List.filter_cons_of_pos (by simpa using hnew), List.filter_filter, List.append_assoc, List.singleton_append]
        refine congrArg _ (congrArg _ (List.filter_congr fun name _ => ?_))
        rw [Bool.eq_iff_iff]
        simp [not_or, and_comm]

theorem getElem?_foldl {i : Nat} {entry : String × Json} (h : entries[i]? = some entry) (hne : entry.1 ∉ rs.map key) :
    (rs.foldl withRequest entries)[i]? = some entry := by
  induction rs generalizing entries with
  | nil => exact h
  | cons r rs ih =>
      rw [List.map_cons, List.mem_cons, not_or] at hne
      exact ih ((sameBut_setField _ _ entries i _ _ hne.1).2 h) hne.2

theorem added_foldl (entries : List (String × Json)) (rs : List PackageRequest) :
    Added rs entries (rs.foldl withRequest entries) :=
  ⟨names_foldl_eq entries rs, fun _ => field?_foldl_of_last, fun _ _ => getElem?_foldl⟩

theorem dropped_withoutRequests (rs : List PackageRequest) (entries : List (String × Json)) :
    Dropped rs entries (withoutRequests rs entries).1 (withoutRequests rs entries).2 := by
  induction rs generalizing entries with
  | nil => exact ⟨(List.filter_eq_self.2 fun _ _ => rfl).symm, rfl⟩
  | cons r rs ih =>
      rw [withoutRequests]
      cases hfield : field? r.key entries with
      | none =>
          have hnew : r.key ∉ entries.map Prod.fst := field?_eq_none_iff.1 hfield
          obtain ⟨hleft, htold⟩ := ih entries
          refine ⟨hleft.trans (List.filter_congr fun entry hentry => ?_), ?_⟩
          · have hne : entry.1 ≠ r.key := fun heq => hnew (heq ▸ List.mem_map_of_mem hentry)
            simp only [List.map_cons, List.mem_cons, hne, false_or]
          · rw [htold, List.map_cons, List.eraseDups_cons, eraseDups_filter,
              List.filter_cons_of_neg (by simpa using hnew), List.filter_filter]
            refine List.filter_congr fun name _ => ?_
            by_cases hname : name = r.key <;> simp [hname, hnew]
      | some value =>
          have hmem : r.key ∈ entries.map Prod.fst := List.mem_map_of_mem (mem_of_field? hfield)
          obtain ⟨hleft, htold⟩ := ih (entries.filter fun entry => entry.1 ≠ r.key)
          refine ⟨?_, ?_⟩
          · dsimp only
            rw [hleft, List.filter_filter]
            refine List.filter_congr fun entry _ => ?_
            by_cases hentry : entry.1 = r.key <;> simp [hentry]
          · dsimp only
            rw [htold, List.map_cons, List.eraseDups_cons, eraseDups_filter,
              List.filter_cons_of_pos (by simpa using hmem), List.filter_filter]
            refine congrArg _ (List.filter_congr fun name _ => ?_)
            rw [Bool.eq_iff_iff, decide_eq_true_iff, mem_names_filter]
            simp

/-- Only entries that are requested are changed by an addition. -/
theorem filter_foldl (entries : List (String × Json)) {names : List String} (h : ∀ r ∈ rs, r.key ∈ names) :
    (rs.foldl withRequest entries).filter (fun entry => entry.1 ∉ names) =
      entries.filter fun entry => entry.1 ∉ names := by
  induction rs generalizing entries with
  | nil => rfl
  | cons r rs ih =>
      obtain ⟨hr, hrs⟩ := List.forall_mem_cons.1 h
      rw [List.foldl_cons, ih _ hrs]
      exact filter_setField (by simp [hr]) _ entries

/-- What has been added is removed again, if nothing of it was there. -/
theorem withoutRequests_foldl (h : ∀ r ∈ rs, r.key ∉ entries.map Prod.fst) :
    (withoutRequests rs (rs.foldl withRequest entries)).1 = entries := by
  rw [(dropped_withoutRequests rs _).left, filter_foldl entries fun r hr => List.mem_map_of_mem hr]
  refine List.filter_eq_self.2 fun entry hentry => decide_eq_true fun hmem => ?_
  obtain ⟨r, hr, hkey⟩ := List.mem_map.1 hmem
  exact h r hr (hkey ▸ List.mem_map_of_mem hentry)

/-! Calls -/

/-- What can be asked of a manifest. -/
inductive Call
  | add (rs : List PackageRequest)
  | remove (rs : List PackageRequest)

namespace Call

/-- What a call does; it tells the names of the entries that it has removed. -/
def run (path : String) : Call → StateM FileTree (Except ManifestError (List String))
  | add rs => return (← Manifest.add path rs).map fun _ => []
  | remove rs => Manifest.remove path rs

/-- The change of the entries that a call makes. -/
def edit : Call → List (String × Json) → List (String × Json) × List String
  | add rs, entries => (rs.foldl withRequest entries, [])
  | remove rs, entries => withoutRequests rs entries

/-- What becomes of the entries by a call, and what it tells. -/
def Edits (entries entries' : List (String × Json)) (told : List String) : Call → Prop
  | add rs => Added rs entries entries' ∧ told = []
  | remove rs => Dropped rs entries entries' told

theorem edits_edit (call : Call) (entries : List (String × Json)) :
    call.Edits entries (call.edit entries).1 (call.edit entries).2 := by
  cases call with
  | add rs => exact ⟨added_foldl entries rs, rfl⟩
  | remove rs => exact dropped_withoutRequests rs entries

theorem run_eq_modify (call : Call) (path : String) : call.run path = modify path call.edit := by
  cases call with
  | remove rs => rfl
  | add rs =>
      funext t
      have hrun : (Call.add rs).run path t =
          ((Manifest.add path rs t).1.map fun _ => [], (Manifest.add path rs t).2) := rfl
      rw [hrun, Manifest.add, modify, modify]
      cases currentFields path t with
      | error e => rfl
      | ok fields =>
          dsimp only [edit]
          cases t.write path (pretty (.object (setField listName
            (.object (rs.foldl withRequest (listed (.object fields)))) fields)) ++ "\n") <;> rfl

end Call

/-- Makes calls one after the other. -/
def runAll (path : String) : List Call → FileTree → List (Except ManifestError (List String)) × FileTree
  | [], t => ([], t)
  | call :: calls, t =>
    let (result, t) := call.run path t
    let (results, t) := runAll path calls t
    (result :: results, t)

variable {path : String} {t t' : FileTree} {fields fields' : List (String × Json)} {e : ManifestError}

/-- In the place of a manifest there is a directory, a text that is no document, or a document that is no object. -/
inductive Unfit (path : String) (t : FileTree) : ManifestError → Prop
  | directory (blocked : t.Blocked path) : Unfit path t (.file .isADirectory)
  | text {text : String} {e : Json.ParseError} (there : t.read path = .ok text) (bad : Json.read text = .error e) :
      Unfit path t (.json e)
  | document {j : Json} (there : document path t = .ok j) (other : j.isObject = false) :
      Unfit path t .missingWebDependencies

theorem Unfit.currentFields (h : Unfit path t e) : currentFields path t = .error e := by
  rw [Manifest.currentFields]
  cases h with
  | directory blocked => rw [Manifest.document, blocked.read]
  | text there bad => simp [Manifest.document, there, bad, Except.mapError]
  | document there other =>
      rw [there]
      split
      · rename_i heq
        cases heq
        cases other
      · rfl
      · rename_i heq
        cases heq
      · rename_i heq
        cases heq

/-- A path to a place in a directory is one to a manifest, to nothing, or to something else. -/
theorem prior_or_unfit {directory : List String} {last : String} (hn : Names t path directory last) :
    (∃ fields, Prior path t fields) ∨ ∃ e, Unfit path t e := by
  cases hnode : t.node? (directory ++ [last]) with
  | none => exact .inl ⟨[], .inr ⟨⟨directory, last, hn, hnode⟩, rfl⟩⟩
  | some node =>
      cases node with
      | directory => exact .inr ⟨_, .directory ⟨directory, last, hn, hnode⟩⟩
      | file text =>
          have hthere : t.read path = .ok text := read_eq_ok_iff.2 ⟨directory, last, hn, hnode⟩
          cases hread : Json.read text with
          | error e => exact .inr ⟨_, .text hthere hread⟩
          | ok j =>
              have hdocument : document path t = .ok j := document_eq_ok_iff.2 ⟨text, hthere, hread⟩
              cases j with
              | object fields => exact .inl ⟨fields, .inl hdocument⟩
              | null | bool | number | string | array => exact .inr ⟨_, .document hdocument rfl⟩

theorem Prior.node?_put (h : Prior path t fields) (node : FileNode) {names : List String}
    (hne : names ≠ Path.place path) : (t.put (Path.place path) node).node? names = t.node? names := by
  obtain ⟨directory, last, hn⟩ : ∃ directory last, Names t path directory last := by
    rcases h with h | ⟨⟨directory, last, hn, -⟩, -⟩
    · obtain ⟨text, hread, -⟩ := document_eq_ok_iff.1 h
      obtain ⟨directory, last, hn, -⟩ := read_eq_ok_iff.1 hread
      exact ⟨directory, last, hn⟩
    · exact ⟨directory, last, hn⟩
  rw [FileTree.node?_put (by rw [← hn.place_eq]; simp), if_neg hne]

/-- A call succeeds: it changes the entries that are listed as it should, and neither another field nor another file. -/
structure Call.Succeeds (call : Call) (path : String) (t : FileTree) (fields : List (String × Json))
    (told : List String) (t' : FileTree) (fields' : List (String × Json)) : Prop where
  result : call.run path t = (.ok told, t')
  found : document path t' = .ok (.object fields')
  others : SameBut listName fields fields'
  entries : call.Edits (listed (.object fields)) (listed (.object fields')) told
  distinct : ((listed (.object fields')).map Prod.fst).Nodup
  rest : ∀ names, names ≠ Path.place path → t'.node? names = t.node? names

/-- Calls succeed one after the other. -/
inductive Trace (path : String) : FileTree → List (String × Json) → List Call → List (List String) → FileTree →
    List (String × Json) → Prop
  | nil (t : FileTree) (fields : List (String × Json)) : Trace path t fields [] [] t fields
  | cons {t t' t'' : FileTree} {fields fields' fields'' : List (String × Json)} {call : Call} {calls : List Call}
      {told : List String} {more : List (List String)} (first : call.Succeeds path t fields told t' fields')
      (next : Trace path t' fields' calls more t'' fields'') :
      Trace path t fields (call :: calls) (told :: more) t'' fields''

/-- A manifest as calls find it and leave it, if its numbers are read as they are printed. -/
structure Ready (path : String) (t : FileTree) (fields : List (String × Json)) : Prop where
  prior : Prior path t fields
  regular : Regular Steady maxDepth (.object fields)

theorem regular_edit (h : Regular Steady maxDepth (.object fields)) (call : Call) :
    Regular Steady maxDepth (relisted (call.edit (listed (.object fields))).1 fields) := by
  cases call with
  | add rs => exact regular_relisted h rs
  | remove rs =>
      have hleft := (dropped_withoutRequests rs (listed (.object fields))).left
      refine regular_relisted_of h ?_ fun entry hentry => .inl ?_
      · rw [Call.edit, hleft]
        exact (regular_listed h).1.sublist (List.filter_sublist.map _)
      · rw [Call.edit, hleft] at hentry
        exact List.mem_of_mem_filter hentry

/-- Each call succeeds on a manifest that is ready, and leaves it ready for the next one. -/
theorem Ready.succeeds (h : Ready path t fields) (call : Call) : ∃ told t' fields',
    call.Succeeds path t fields told t' fields' ∧ Ready path t' fields' ∧
      listed (.object fields') = (call.edit (listed (.object fields))).1 := by
  have hregular := regular_edit h.regular call
  have hlisted := listed_relisted (call.edit (listed (.object fields))).1 fields
  have hwrite := h.prior.write ((relisted (call.edit (listed (.object fields))).1 fields).pretty ++ "\n")
  have hrun : call.run path t = (.ok (call.edit (listed (.object fields))).2, t.put (Path.place path)
      (.file ((relisted (call.edit (listed (.object fields))).1 fields).pretty ++ "\n"))) := by
    rw [call.run_eq_modify, modify, h.prior.currentFields]
    dsimp only
    rw [← relisted, hwrite]
  have hfound := document_eq_ok_iff.2 ⟨_, read_of_write hwrite, hregular.read_pretty⟩
  refine ⟨_, _, _, ⟨hrun, hfound, sameBut_setField _ _ _, ?_, (regular_listed hregular).1, fun names hne => ?_⟩,
    ⟨.inl hfound, hregular⟩, hlisted⟩
  · rw [← relisted, hlisted]
    exact call.edits_edit _
  · exact h.prior.node?_put _ hne

theorem Ready.trace (h : Ready path t fields) (calls : List Call) : ∃ told t' fields',
    Trace path t fields calls told t' fields' ∧ Ready path t' fields' ∧
      listed (.object fields') = calls.foldl (fun entries call => (call.edit entries).1) (listed (.object fields)) := by
  induction calls generalizing t fields with
  | nil => exact ⟨[], t, fields, .nil t fields, h, rfl⟩
  | cons call calls ih =>
      obtain ⟨told, t', fields', hfirst, hready, hlisted⟩ := h.succeeds call
      obtain ⟨more, t'', fields'', htrace, hready', hlisted'⟩ := ih hready
      exact ⟨told :: more, t'', fields'', .cons hfirst htrace, hready', by rw [hlisted', hlisted]; rfl⟩

theorem Trace.runAll_eq {calls : List Call} {told : List (List String)}
    (h : Trace path t fields calls told t' fields') : runAll path calls t = (told.map .ok, t') := by
  induction h with
  | nil => rfl
  | cons first _ ih => simp only [runAll, first.result, ih, List.map_cons]

theorem Trace.sameBut {calls : List Call} {told : List (List String)}
    (h : Trace path t fields calls told t' fields') : SameBut listName fields fields' := by
  induction h with
  | nil => exact .refl _ _
  | cons first _ ih => exact first.others.trans ih

/-- Calls fail one after the other, and change nothing, where there is something else than a manifest. -/
theorem Unfit.runAll_eq (h : Unfit path t e) (calls : List Call) :
    runAll path calls t = (calls.map fun _ => .error e, t) := by
  induction calls with
  | nil => rfl
  | cons call calls ih =>
      have hcall : call.run path t = (.error e, t) := by rw [call.run_eq_modify, modify, h.currentFields]
      simp only [runAll, hcall, ih, List.map_cons]

/-- Where something else than an object is in the place of a manifest, all calls fail and nothing changes.  Else they
all succeed, one after the other, and keep what is not listed; and what is added next is undone by its removal if
nothing of it was listed.  The numbers of the manifest must be read as they are printed. -/
theorem calls_succeed_or_fail {directory : List String} {last : String} (hn : Names t path directory last)
    (hs : ∀ fields, document path t = .ok (.object fields) → ∀ n, HasNumber n (.object fields) → Steady n)
    (calls : List Call) :
    (∃ e, Unfit path t e ∧ runAll path calls t = (calls.map fun _ => .error e, t)) ∨
      ∃ fields told t' fields', Prior path t fields ∧ runAll path calls t = (told.map .ok, t') ∧
        Trace path t fields calls told t' fields' ∧ SameBut listName fields fields' ∧
        ∀ rs : List PackageRequest, (∀ r ∈ rs, r.key ∉ (listed (.object fields')).map Prod.fst) →
          ∃ told t'' fields'', Trace path t' fields' [.add rs, .remove rs] told t'' fields'' ∧
            listed (.object fields'') = listed (.object fields') := by
  rcases prior_or_unfit hn with ⟨fields, hprior⟩ | ⟨e, hunfit⟩
  · have hnumbers : ∀ n, HasNumber n (.object fields) → Steady n := by
      rcases hprior with hfound | ⟨-, rfl⟩
      · exact hs fields hfound
      · rintro n (_ | _ | ⟨mem, -⟩)
        cases mem
    have hready : Ready path t fields :=
      ⟨hprior, (regular_currentFields hprior.currentFields).of_numbers hnumbers⟩
    obtain ⟨told, t', fields', htrace, hready', -⟩ := hready.trace calls
    refine .inr ⟨fields, told, t', fields', hprior, htrace.runAll_eq, htrace, htrace.sameBut, fun rs hrs => ?_⟩
    obtain ⟨told, t'', fields'', hundone, -, hlisted⟩ := hready'.trace [.add rs, .remove rs]
    exact ⟨told, t'', fields'', hundone, hlisted.trans (withoutRequests_foldl hrs)⟩
  · exact .inl ⟨e, hunfit, hunfit.runAll_eq calls⟩

/-- The fields of a manifest that lists a package. -/
def numbered : List (String × Json) :=
  [("build", .number (.integer 7)), ("webDependencies", .object [("b", .string "1")]), ("private", .bool true)]

theorem calls_succeed_or_fail_numbered :
    let t : FileTree := ⟨[(["package.json"], .file ((Json.object numbered).pretty ++ "\n"))]⟩
    let calls : List Call :=
      [.add [⟨"a", none, some "2"⟩, ⟨"b", none, none⟩], .remove [⟨"c", none, none⟩, ⟨"b", none, none⟩]]
    ∃ t' fields', Trace "/package.json" t numbered calls [[], ["b"]] t' fields' ∧
      fields'[0]? = some ("build", .number (.integer 7)) ∧ fields'[2]? = some ("private", .bool true) := by
  intro t calls
  have hnames : Names t "/package.json" [] "package.json" :=
    ⟨by decide +kernel, by decide, by decide +kernel, by decide⟩
  have hregular : Regular Steady maxDepth (.object numbered) := by
    refine .object (by decide) (List.forall_mem_cons.2 ⟨.number _ (steady_integer ⟨by decide, by decide⟩),
      List.forall_mem_cons.2 ⟨.object (by decide) ?_, List.forall_mem_cons.2 ⟨.bool _ _, fun _ => nofun⟩⟩⟩)
    exact List.forall_mem_cons.2 ⟨.string _ _, fun _ => nofun⟩
  have hdocument : document "/package.json" t = .ok (.object numbered) :=
    document_eq_ok_iff.2 ⟨_, rfl, hregular.read_pretty⟩
  have hsteady : ∀ fields, document "/package.json" t = .ok (.object fields) →
      ∀ n, HasNumber n (.object fields) → Steady n := by
    intro fields hfields n hn
    rw [hdocument] at hfields
    cases hfields
    exact hregular.holds hn
  have htold : (runAll "/package.json" calls t).1 = [[], ["b"]].map .ok := by decide +kernel
  rcases calls_succeed_or_fail hnames hsteady calls with
    ⟨e, -, hrun⟩ | ⟨fields, told, t', fields', hprior, hrun, htrace, hsame, -⟩
  · rw [hrun] at htold
    cases htold
  · rw [hrun] at htold
    obtain rfl : told = [[], ["b"]] := List.map_injective_iff.2 (fun _ _ => Except.ok.inj) htold
    obtain rfl : numbered = fields := by
      have hcurrent := hprior.currentFields
      rw [currentFields, hdocument] at hcurrent
      exact Except.ok.inj hcurrent
    exact ⟨t', fields', htrace, (hsame 0 _ _ (by decide)).2 rfl, (hsame 2 _ _ (by decide)).2 rfl⟩

end Manifest

end WebModules
