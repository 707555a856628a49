import HyperKV.SerialServer

namespace SerialServer

variable {C Q R S : Type} {sv : Service Q R S} {init : S} {s t : State C Q R S}

/-! ## Where the clients stand -/

/-- A client is in the queue, is being served, or has been served to the end. -/
structure Placed (s : State C Q R S) : Prop where
  queued : ∀ c, s.client c ≠ none → c ∈ s.accepted ++ s.backlog
  serving : ∀ c cl, s.phase = .serving c → s.client c = some cl → cl.line ≠ .closed
  ended : s.phase ≠ .down → ∀ c ∈ s.accepted,
    s.phase = .serving c ∨ ∃ cl, s.client c = some cl ∧ cl.line = .closed

theorem placed_start (init : S) : Placed (start (C := C) (Q := Q) (R := R) init) where
  queued _ h := absurd rfl h
  serving _ _ h := by cases h
  ended _ _ h := absurd h List.not_mem_nil

/-- The reply that ended the session of a client. -/
theorem Client.Follows.ended {cl : Client Q R} {ex : List (Q × R)} (h : cl.Follows sv ex)
    (hclosed : cl.line = .closed) : ∃ q r, ex.getLast? = some (q, r) ∧ sv.verdict r ≠ .answers := by
  obtain ⟨qs, rs, hholds, _, hanswered⟩ := h
  rw [hclosed] at hholds
  cases hholds with
  | closed hr =>
    rename_i r
    have hlast := congrArg List.getLast? hanswered
    rw [List.getLast?_concat, List.getLast?_map, Option.map_eq_some_iff] at hlast
    obtain ⟨⟨q, r'⟩, hex, rfl⟩ := hlast
    exact ⟨q, r', hex, hr⟩

variable [DecidableEq C]

theorem ne_none_of_update {c c' : C} {cl : Client Q R}
    (h : Function.update s.client c (some cl) c' ≠ none) : c' = c ∨ s.client c' ≠ none := by
  by_cases heq : c' = c
  · exact .inl heq
  · exact .inr (by rwa [Function.update_of_ne heq] at h)

/-- A client that is not closed has one more message, and is not closed. -/
theorem Placed.client (h : Placed s) {c : C} {cl cl' : Client Q R} (hc : s.client c = some cl)
    (hopen : cl.line ≠ .closed) (hopen' : cl'.line ≠ .closed) :
    Placed { s with client := Function.update s.client c (some cl') } where
  queued c' hc' := by
    rcases ne_none_of_update hc' with rfl | hold
    · exact h.queued c' (by rw [hc]; exact Option.some_ne_none cl)
    · exact h.queued c' hold
  serving c' cl'' hphase hc' := forall_client_update
    (P := fun c' cl'' => s.phase = .serving c' → cl''.line ≠ .closed)
    (fun c' cl'' _ hc' hphase => h.serving c' cl'' hphase hc') (fun _ => hopen') c' cl'' hc' hphase
  ended hup c' hc' := by
    refine (h.ended hup c' hc').imp id ?_
    rintro ⟨cl'', hcl'', hclosed⟩
    have hne : c' ≠ c := by
      rintro rfl
      rw [hc] at hcl''
      cases hcl''
      exact hopen hclosed
    exact ⟨cl'', (Function.update_of_ne hne _ _).trans hcl'', hclosed⟩

theorem Placed.connect (h : Placed s) {c : C} (hnew : s.client c = none) :
    Placed { s with
      backlog := s.backlog ++ [c]
      client := Function.update s.client c (some ⟨.idle, [], []⟩) } where
  queued c' hc' := by
    rw [← List.append_assoc, List.mem_append, List.mem_singleton]
    exact (ne_none_of_update hc').symm.imp (h.queued c') id
  serving c' cl' hphase hc' := forall_client_update
    (P := fun c' cl' => s.phase = .serving c' → cl'.line ≠ .closed)
    (fun c' cl' _ hc' hphase => h.serving c' cl' hphase hc')
      (fun _ hclosed => by cases hclosed) c' cl' hc' hphase
  ended hup c' hc' := by
    refine (h.ended hup c' hc').imp id ?_
    rintro ⟨cl', hcl', hclosed⟩
    have hne : c' ≠ c := by
      rintro rfl
      rw [hnew] at hcl'
      cases hcl'
    exact ⟨cl', (Function.update_of_ne hne _ _).trans hcl', hclosed⟩

theorem Placed.accept (h : Placed s) (hserial : Serial sv init s) {c : C} {rest : List C}
    (hphase : s.phase = .accepting) (hbacklog : s.backlog = c :: rest) :
    Placed { s with phase := .serving c, backlog := rest, accepted := s.accepted ++ [c] } where
  queued c' hc' := by
    have hmem := h.queued c' hc'
    rwa [hbacklog, ← List.singleton_append, ← List.append_assoc] at hmem
  serving c' cl hserving hc' hclosed := by
    cases hserving
    have hnew : c ∉ s.accepted := by
      have honce := hserial.once
      rw [hbacklog] at honce
      exact fun hmem => (List.nodup_append.mp honce).2.2 c hmem c List.mem_cons_self rfl
    obtain ⟨q, r, hlast, _⟩ := (hserial.follows c cl hc').ended hclosed
    rw [exchanges, hserial.filter_eq_nil hnew] at hlast
    cases hlast
  ended _ c' hc' := by
    rw [List.mem_append, List.mem_singleton] at hc'
    rcases hc' with hold | rfl
    · have hended := h.ended (by simp [hphase]) c' hold
      exact .inr (hended.resolve_left (by simp [hphase]))
    · exact .inl rfl

theorem Placed.handle (h : Placed s) {c : C} {cl : Client Q R} {q : Q} {r : R} {store : S}
    (hphase : s.phase = .serving c) (hc : s.client c = some cl) :
    Placed { s with
      phase := (sv.verdict r).phase c
      store := store
      client := Function.update s.client c (some ⟨(sv.verdict r).line r, cl.asked, cl.answered⟩)
      log := s.log ++ [(c, q, r)] } where
  queued c' hc' := by
    rcases ne_none_of_update hc' with rfl | hold
    · exact h.queued c' (by rw [hc]; exact Option.some_ne_none cl)
    · exact h.queued c' hold
  serving c' cl' hserving hc' := by
    change (sv.verdict r).phase c = .serving c' at hserving
    change Function.update s.client c _ c' = some cl' at hc'
    obtain rfl : c' = c := Verdict.eq_of_serving hserving
    rw [Function.update_self] at hc'
    cases hc'
    cases hv : sv.verdict r with
    | answers => exact nofun
    | leaves => rw [hv] at hserving; cases hserving
    | stops => rw [hv] at hserving; cases hserving
  ended hup c' hc' := by
    change (sv.verdict r).phase c ≠ .down at hup
    change (sv.verdict r).phase c = .serving c' ∨ ∃ cl', Function.update s.client c _ c' = some cl' ∧ _
    have hold := h.ended (by rw [hphase]; exact nofun) c' hc'
    rw [hphase] at hold
    by_cases heq : c' = c
    · subst heq
      cases hv : sv.verdict r with
      | answers => exact .inl rfl
      | leaves => exact .inr ⟨_, Function.update_self .., rfl⟩
      | stops => rw [hv] at hup; exact absurd rfl hup
    · refine .inr ?_
      obtain ⟨cl', hcl', hclosed⟩ := hold.resolve_left fun hserving =>
        heq (Phase.serving.inj hserving).symm
      exact ⟨cl', (Function.update_of_ne heq _ _).trans hcl', hclosed⟩

theorem Placed.step (h : Placed s) (hserial : Serial sv init s) (hstep : Step sv s t) : Placed t := by
  cases hstep with
  | connect _ hnew => exact h.connect hnew
  | ask hc hline => exact h.client hc (by rw [hline]; exact nofun) nofun
  | accept hphase hbacklog => exact h.accept hserial hphase hbacklog
  | handle hphase hc _ _ => exact h.handle hphase hc
  | crash =>
    refine ⟨h.queued, fun c cl hserving => ?_, fun hup => absurd rfl hup⟩
    cases hserving
  | hear hc hline => exact h.client hc (by rw [hline]; exact nofun) nofun

theorem Reachable.placed (h : Reachable sv init s) : Placed s := by
  induction h with
  | refl => exact placed_start init
  | tail hreach hstep ih => exact ih.step (Reachable.serial hreach) hstep

end SerialServer
