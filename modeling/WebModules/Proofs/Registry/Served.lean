import WebModules.Proofs.Graph.Limit
import WebModules.Proofs.Json.Fields
import WebModules.Proofs.Registry.Answers
import WebModules.Proofs.Specifier

/-!
Where modules are served from: under the URL of some answer of the network, or under its path.
-/

namespace WebModules

open Exploration

namespace Network

variable {n : Network}

theorem respond_eq_some {u : Url} {response : Response} (h : n.respond u = some response) :
    u.scheme = "http".toList ∧
      ((u.requestText, some response) ∈ n.answers ∨ response = .notFound) := by
  unfold respond at h
  split at h
  · rename_i hweb
    refine ⟨hweb.1, ?_⟩
    split at h
    · rename_i answer hanswer
      subst h
      exact .inl (Json.mem_of_field? hanswer)
    · split at h
      · cases h
        exact .inr rfl
      · cases h
  · cases h

theorem follow_eq_some {redirects : Nat} {u final : Url} {made : List Exchange} {response : Response}
    (hu : u.Regular) (h : n.follow redirects u = (made, some (final, response))) :
    final.Regular ∧ n.respond final = some response := by
  induction redirects generalizing u made with
  | zero =>
      unfold follow at h
      split at h
      · cases h
      · rename_i answer hanswer
        dsimp only at h
        split at h
        · cases h
          exact ⟨hu, hanswer⟩
        · cases h
  | succ redirects ih =>
      unfold follow at h
      split at h
      · cases h
      · rename_i answer hanswer
        dsimp only at h
        split at h
        · cases h
          exact ⟨hu, hanswer⟩
        · split at h
          · rename_i less target hless hlocation
            cases hless
            obtain ⟨location, -, hjoin⟩ := Option.map_eq_some_iff.1 hlocation
            exact ih (hu.join hjoin) (Prod.ext rfl (Prod.mk.inj h).2)
          · cases h

end Network

/-- A module that a network has served. -/
structure ServedBy (n : Network) (m : ServedModule) (u : Url) (response : Response) : Prop where
  regular : u.Regular
  responds : n.respond u = some response
  eq : m = Client.served (u, response)

namespace Client

variable {c : Client} {n : Network}

theorem requestModule_eq_ok {u : Url} {m : ServedModule} (hu : u.Regular)
    (h : (requestModule n u).2 = .ok m) : ∃ final response, ServedBy n m final response := by
  unfold requestModule at h
  split at h
  · cases h
  · rename_i made final response hfirst
    obtain ⟨hfinal, hresponds⟩ := Network.follow_eq_some hu hfirst
    split at h
    · cases h
      exact ⟨final, response, hfinal, hresponds, rfl⟩
    · split at h
      · cases h
      · rename_i next hnext
        split at h
        · cases h
        · rename_i more answer hsecond
          obtain ⟨final', response'⟩ := answer
          obtain ⟨hfinal', hresponds'⟩ := Network.follow_eq_some (hfinal.join hnext) hsecond
          cases h
          exact ⟨final', response', hfinal', hresponds', rfl⟩

theorem answer_eq_ok (hc : c.base.Regular) {path : String} {m : ServedModule}
    (h : c.answer n path = .ok m) : ∃ final response, ServedBy n m final response := by
  unfold answer at h
  split at h
  · cases h
  · rename_i u hu
    unfold urlFor at hu
    split at hu
    · rename_i joined hjoined
      cases hu
      exact requestModule_eq_ok (hc.join hjoined) h
    · cases hu

theorem location_served (c : Client) {u : Url} {response : Response} :
    c.location (served (u, response)) = u.requestText ∨
      c.location (served (u, response)) = u.pathText := by
  unfold location
  split
  · split
    · exact .inr rfl
    · exact .inl rfl
  · exact .inl rfl

end Client

/-! The locations that a network can serve from -/

/-- All parts of a text. -/
def Text.infixes (s : String) : List String :=
  (List.range (s.length + 1)).flatMap fun start =>
    (List.range (s.length + 1)).map fun count => String.ofList ((s.toList.drop start).take count)

theorem Text.length_infixes (s : String) : (infixes s).length = (s.length + 1) * (s.length + 1) := by
  simp [infixes, List.length_flatMap]

theorem Text.mem_infixes {s : String} {cs : List Char} (h : cs <:+: s.toList) :
    String.ofList cs ∈ infixes s := by
  obtain ⟨before, after, hs⟩ := h
  have hlength : s.length = before.length + cs.length + after.length := by
    rw [← String.length_toList, ← hs]
    simp only [List.length_append]
  refine List.mem_flatMap.2 ⟨before.length, List.mem_range.2 (by omega),
    List.mem_map.2 ⟨cs.length, List.mem_range.2 (by omega), ?_⟩⟩
  rw [← hs, List.append_assoc, List.drop_left, List.take_left]

namespace Network

/-- The texts of a network with all places that they can be served from. -/
def entries (n : Network) : List (String × List String) :=
  n.answers.filterMap fun a => a.2.map fun response => (response.body, a.1 :: Text.infixes a.1)

theorem texts_eq (n : Network) : n.texts = n.entries.map Prod.fst := by
  rw [texts, entries, List.map_filterMap]
  refine List.filterMap_congr fun a _ => ?_
  cases a.2 <;> rfl

theorem length_le_locations {n : Network} {entry : String × List String} (h : entry ∈ n.entries) :
    entry.2.length ≤ n.locations := by
  obtain ⟨a, ha, hentry⟩ := List.mem_filterMap.1 h
  obtain ⟨response, -, rfl⟩ := Option.map_eq_some_iff.1 hentry
  have hle (answers : List (String × Option Response)) (ha : a ∈ answers) :
      (a.1.length + 1) * (a.1.length + 1) + 1 ≤ answers.foldr
        (fun a most => max ((a.1.length + 1) * (a.1.length + 1) + 1) most) 0 := by
    induction answers with
    | nil => cases ha
    | cons b answers ih =>
        rw [List.foldr_cons]
        rcases List.mem_cons.1 ha with rfl | ha
        · exact Nat.le_max_left _ _
        · exact Nat.le_trans (ih ha) (Nat.le_max_right _ _)
  rw [List.length_cons, Text.length_infixes]
  exact hle n.answers ha

end Network

namespace Registry

variable {r : Registry} {n : Network}

theorem loaded_eq_ok (hr : r.client.base.Regular) {path : String} {m : LoadedModule}
    (h : r.loaded n path = .ok m) : ∃ u response, u.Regular ∧ n.respond u = some response ∧
      m.source = response.body ∧ (m.location = u.requestText ∨ m.location = u.pathText) := by
  obtain ⟨served, hserved, rfl⟩ := map_eq_ok h
  obtain ⟨u, response, hu, hresponds, rfl⟩ := Client.answer_eq_ok hr (mapError_eq_ok hserved)
  exact ⟨u, response, hu, hresponds, rfl, r.client.location_served⟩

theorem specifierCount_notFound : specifierCount Response.notFound.body = 0 := by
  decide +kernel

theorem within_entries (hr : r.client.base.Regular) (n : Network) : Within (r.loaded n) n.entries := by
  intro path m hm hcount
  obtain ⟨u, response, -, hresponds, hsource, hlocation⟩ := loaded_eq_ok hr hm
  rcases (Network.respond_eq_some hresponds).2 with hanswer | rfl
  · refine ⟨(response.body, u.requestText :: Text.infixes u.requestText), ?_, hsource.symm, ?_⟩
    · exact List.mem_filterMap.2 ⟨_, hanswer, rfl⟩
    · rcases hlocation with hlocation | hlocation
      · rw [hlocation]
        exact List.mem_cons_self
      · rw [hlocation]
        refine List.mem_cons_of_mem _ (Text.mem_infixes ?_)
        rw [Url.requestText, String.toList_ofList]
        exact u.path_infix_request
  · rw [hsource] at hcount
    exact absurd specifierCount_notFound hcount

/-- What a module refers to is no dotted path. -/
theorem not_dotted_join (hr : r.client.base.Regular) {path : String} {m : LoadedModule}
    (h : r.loaded n path = .ok m) (specifier : String) :
    ¬ Specifier.Dotted (Specifier.join m.location specifier).toList := by
  obtain ⟨u, response, hu, hresponds, -, hlocation⟩ := loaded_eq_ok hr h
  obtain ⟨rest, hrest⟩ := (hu.rooted (Network.respond_eq_some hresponds).1).chars_eq
  have hslash : '/' ∈ u.path.chars := by simp [hrest]
  refine Specifier.not_dotted_join ?_ ?_ specifier
  · rcases hlocation with hlocation | hlocation
    · rw [hlocation, Url.requestText, String.toList_ofList]
      exact hu.head_request
    · rw [hlocation, Url.pathText, String.toList_ofList, hrest]
      simp
  · rcases hlocation with hlocation | hlocation
    · rw [hlocation, Url.requestText, String.toList_ofList]
      exact u.path_infix_request.subset hslash
    · rw [hlocation, Url.pathText, String.toList_ofList]
      exact hslash

end Registry

end WebModules
