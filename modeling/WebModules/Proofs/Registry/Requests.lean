import WebModules.Proofs.Registry.Answers

/-!
What is requested of a network.  A client does not ask for a URL again that it has fetched, but it keeps what it
has fetched only for the URL that it was asked for: that of a redirect or of the module that an answer stands for
may be requested again.
-/

namespace WebModules

variable {n : Network} {α β : Type}

namespace Traffic

variable {t t' t'' : Traffic} {asked asked' : List (Nat × Url)}

/-- The requests that clients have made for the URLs that they were asked for, one after the other, each with those
that it has led to.  No URL is among them that has been fetched before, nor is one again after it has been fetched. -/
structure Spends (n : Network) (t : Traffic) (asked : List (Nat × Url)) (t' : Traffic) : Prop where
  exchanges : t'.exchanges = t.exchanges ++ asked.flatMap fun key => (Client.requestModule n key.2).1
  fresh : ∀ key ∈ asked, t.kept.lookup key = none
  once : asked.Pairwise fun key key' => key = key' → ∀ m, (Client.requestModule n key.2).2 ≠ .ok m
  kept : ∀ key m, t.kept.lookup key = some m → t'.kept.lookup key = some m
  gained : ∀ key ∈ asked, ∀ m, (Client.requestModule n key.2).2 = .ok m → t'.kept.lookup key = some m

theorem Spends.refl (n : Network) (t : Traffic) : Spends n t [] t := by
  constructor
  case exchanges => exact (List.append_nil _).symm
  case fresh => exact fun _ => nofun
  case once => exact .nil
  case kept => exact fun _ _ => id
  case gained => exact fun _ => nofun

theorem Spends.trans (h : Spends n t asked t') (h' : Spends n t' asked' t'') : Spends n t (asked ++ asked') t'' := by
  constructor
  case exchanges => rw [h'.exchanges, h.exchanges, List.flatMap_append, List.append_assoc]
  case fresh =>
    intro key hkey
    rcases List.mem_append.1 hkey with hkey | hkey
    · exact h.fresh key hkey
    · cases hm : t.kept.lookup key with
      | none => rfl
      | some m =>
          have hnone := h'.fresh key hkey
          rw [h.kept key m hm] at hnone
          cases hnone
  case once =>
    apply List.pairwise_append.2
    refine ⟨h.once, h'.once, ?_⟩
    rintro key hkey _ hkey' rfl m hm
    have hnone := h'.fresh key hkey'
    rw [h.gained key hkey m hm] at hnone
    cases hnone
  case kept => exact fun key m hm => h'.kept key m (h.kept key m hm)
  case gained =>
    intro key hkey m hm
    rcases List.mem_append.1 hkey with hkey | hkey
    · exact h'.kept key m (h.gained key hkey m hm)
    · exact h'.gained key hkey m hm

/-- A URL that has not been fetched before is requested, and kept if it is answered. -/
theorem Spends.single {key : Nat × Url} {kept : List ((Nat × Url) × ServedModule)} (hfresh : t.kept.lookup key = none)
    (hkept : ∀ other m, t.kept.lookup other = some m → kept.lookup other = some m)
    (hgained : ∀ m, (Client.requestModule n key.2).2 = .ok m → kept.lookup key = some m) :
    Spends n t [key] ⟨kept, t.exchanges ++ (Client.requestModule n key.2).1⟩ := by
  constructor
  case exchanges => simp
  case fresh => exact List.forall_mem_singleton.2 hfresh
  case once => exact List.pairwise_singleton _ _
  case kept => exact hkept
  case gained => exact List.forall_mem_singleton.2 hgained

end Traffic

open Traffic

theorem Client.spends_fetch (c : Client) (n : Network) (path : String) (t : Traffic) :
    ∃ asked, Spends n t asked (c.fetch n path t).2 := by
  unfold Client.fetch
  cases c.urlFor path with
  | error e => exact ⟨[], .refl n t⟩
  | ok u =>
      dsimp only
      cases hkept : t.kept.lookup (c.number, u) with
      | some m => exact ⟨[], .refl n t⟩
      | none =>
          refine ⟨[(c.number, u)], .single hkept ?_ ?_⟩
          · intro key m hm
            have hne : (key == (c.number, u)) = false := by
              apply beq_false_of_ne
              rintro rfl
              rw [hkept] at hm
              cases hm
            cases (Client.requestModule n u).2 with
            | error e => exact hm
            | ok served =>
                simp only [List.lookup_cons, hne]
                exact hm
          · intro m hm
            simp [hm]

/-! Networks in which every module is served from the URL that it is asked for -/

/-- No answer redirects or stands for a module at another URL. -/
def Network.Direct (n : Network) : Prop :=
  ∀ u response, n.respond u = some response → response.importUrl = none ∧ Network.isRedirect response.status = false

theorem Client.requestModule_direct (hn : n.Direct) (u : Url) : Client.requestModule n u =
    ([⟨u.requestText, (n.respond u).isSome⟩],
      (n.respond u).elim (.error (.unreachable u.text)) fun response => .ok (Client.served (u, response))) := by
  cases hresponds : n.respond u with
  | none =>
      have hrequest : n.request u = ([⟨u.requestText, false⟩], none) := by
        rw [Network.request, Network.maxRedirects, Network.follow, hresponds]
      rw [Client.requestModule, hrequest]
      rfl
  | some response =>
      obtain ⟨himport, hstatus⟩ := hn u response hresponds
      have hrequest : n.request u = ([⟨u.requestText, true⟩], some (u, response)) := by
        rw [Network.request, Network.maxRedirects, Network.follow, hresponds]
        simp [hstatus]
      rw [Client.requestModule, hrequest]
      simp only [himport]
      rfl

/-- In such a network each URL is requested for itself only, and not again after it has been answered. -/
theorem Traffic.Spends.direct {t t' : Traffic} {asked : List (Nat × Url)} (h : Spends n t asked t') (hn : n.Direct) :
    t'.exchanges = t.exchanges ++ asked.map (fun key => ⟨key.2.requestText, (n.respond key.2).isSome⟩) ∧
      asked.Pairwise fun key key' => key = key' → n.respond key.2 = none := by
  constructor
  · rw [h.exchanges, List.map_eq_flatMap]
    simp only [Client.requestModule_direct hn]
  · refine h.once.imp ?_
    intro key key' hfails heq
    cases hresponds : n.respond key.2 with
    | none => rfl
    | some response =>
        have hserved : (Client.requestModule n key.2).2 = .ok (Client.served (key.2, response)) := by
          rw [Client.requestModule_direct hn, hresponds]
          rfl
        exact absurd hserved (hfails heq _)

/-- Work that makes no requests but those of clients that are asked for modules. -/
def Spending (n : Network) (work : StateM Traffic α) : Prop := ∀ t, ∃ asked, Spends n t asked (work t).2

namespace Spending

variable {work : StateM Traffic α}

theorem pure (n : Network) (a : α) : Spending n (pure a : StateM Traffic α) := fun t => ⟨[], .refl n t⟩

theorem bind (h : Spending n work) {next : α → StateM Traffic β} (hnext : ∀ a, Spending n (next a)) :
    Spending n (work >>= next) := by
  intro t
  obtain ⟨asked, hspends⟩ := h t
  obtain ⟨asked', hspends'⟩ := hnext (work t).1 (work t).2
  exact ⟨asked ++ asked', hspends.trans hspends'⟩

theorem mapM {items : List β} {work : β → StateM Traffic α} (h : ∀ item ∈ items, Spending n (work item)) :
    Spending n (items.mapM work) := by
  induction items with
  | nil => exact .pure n []
  | cons item items ih =>
      rw [List.mapM_cons]
      apply (h item List.mem_cons_self).bind
      intro result
      apply (ih fun next hnext => h next (List.mem_cons_of_mem _ hnext)).bind
      intro results
      exact .pure n _

end Spending

namespace Registry

variable (r : Registry) (n : Network)

theorem spending_fetch (path : String) : Spending n (r.fetch n path) := by
  unfold fetch
  apply Spending.bind (r.client.spends_fetch n path)
  intro result
  cases result <;> exact .pure n _

theorem spending_load (path : String) : Spending n (r.load n path) := by
  unfold load
  apply (r.spending_fetch n path).bind
  intro result
  cases result <;> exact .pure n _

theorem spending_identify (path : String) : Spending n (r.identify n path) := by
  unfold identify
  apply (r.spending_fetch n path).bind
  intro result
  cases result with
  | error e => exact .pure n _
  | ok m =>
      dsimp only
      cases r.backend.identify? m.path <;> exact .pure n _

theorem spending_has (package : String) (target version : Option String) :
    Spending n (r.has n package target version) := by
  unfold has
  apply (r.spending_fetch n _).bind
  intro result
  cases result <;> exact .pure n _

theorem spending_version (package : String) (target version : Option String) :
    Spending n (r.version n package target version) := by
  unfold Registry.version
  apply (r.spending_identify n _).bind
  intro result
  cases result with
  | error e => exact .pure n _
  | ok identity =>
      dsimp only
      cases Version.parse? identity.version <;> exact .pure n _

end Registry

end WebModules
