import Mathlib.Data.List.Nodup
import Mathlib.Logic.Function.Basic
import Mathlib.Logic.Relation

namespace SerialServer

variable {C Q R S : Type}

/-! ## A server and its clients -/

/-- What a reply is to its session: an answer in it, its end, or the end of the
    server. -/
inductive Verdict where
  | answers
  | leaves
  | stops
  deriving DecidableEq, Repr

/-- How requests are handled. One that is not brings the server down. -/
structure Service (Q R S : Type) where
  handle : S → Q → Option (R × S)
  verdict : R → Verdict

/-- A connection has at most one message in it. -/
inductive Line (Q R : Type) where
  | idle
  | asked (q : Q)
  | answered (r : R)
  | closed

/-- A client, with all that it has asked and all that it has been answered. -/
structure Client (Q R : Type) where
  line : Line Q R
  asked : List Q
  answered : List R

/-- One client is served at a time. -/
inductive Phase (C : Type) where
  | accepting
  | serving (c : C)
  | down
  deriving DecidableEq, Repr

/-- The server and its clients. The history of the server is the order in which it
    accepted clients, and the requests it handled with their replies. -/
structure State (C Q R S : Type) where
  phase : Phase C
  backlog : List C
  store : S
  client : C → Option (Client Q R)
  accepted : List C
  log : List (C × Q × R)

def start (init : S) : State C Q R S := ⟨.accepting, [], init, fun _ => none, [], []⟩

def Verdict.phase (c : C) : Verdict → Phase C
  | .answers => .serving c
  | .leaves => .accepting
  | .stops => .down

def Verdict.line (r : R) : Verdict → Line Q R
  | .answers => .answered r
  | _ => .closed

/-! ## What one client sees -/

section Client

/-- The requests and replies that are under way. The reply that ends a session
    does not reach the client. -/
inductive Line.Holds (sv : Service Q R S) : Line Q R → List Q → List R → Prop where
  | idle : Holds sv .idle [] []
  | asked (q : Q) : Holds sv (.asked q) [q] []
  | answered (r : R) : Holds sv (.answered r) [] [r]
  | closed {r : R} (hr : sv.verdict r ≠ .answers) : Holds sv .closed [] [r]

/-- A client has asked what it exchanged, and been answered in that order. -/
def Client.Follows (sv : Service Q R S) (cl : Client Q R) (ex : List (Q × R)) : Prop :=
  ∃ qs rs, cl.line.Holds sv qs rs ∧ cl.asked = ex.map Prod.fst ++ qs ∧ ex.map Prod.snd = cl.answered ++ rs

variable {sv : Service Q R S} {cl : Client Q R} {ex : List (Q × R)}

theorem Line.Holds.of_idle {qs : List Q} {rs : List R} {line : Line Q R} (h : line.Holds sv qs rs)
    (hline : line = .idle) : qs = [] ∧ rs = [] := by
  subst hline
  cases h
  exact ⟨rfl, rfl⟩

theorem Line.Holds.of_asked {qs : List Q} {rs : List R} {line : Line Q R} {q : Q}
    (h : line.Holds sv qs rs)
    (hline : line = .asked q) : qs = [q] ∧ rs = [] := by
  subst hline
  cases h
  exact ⟨rfl, rfl⟩

theorem Line.Holds.of_answered {qs : List Q} {rs : List R} {line : Line Q R} {r : R}
    (h : line.Holds sv qs rs)
    (hline : line = .answered r) : qs = [] ∧ rs = [r] := by
  subst hline
  cases h
  exact ⟨rfl, rfl⟩

theorem Line.Holds.length {qs : List Q} {rs : List R} {line : Line Q R} (h : line.Holds sv qs rs) :
    qs.length + rs.length ≤ 1 := by
  cases h with
  | idle => exact Nat.zero_le 1
  | asked q => exact Nat.le_refl 1
  | answered r => exact Nat.le_refl 1
  | closed => exact Nat.le_refl 1

theorem Client.Follows.ask (h : cl.Follows sv ex) (hline : cl.line = .idle) (q : Q) :
    Client.Follows sv ⟨.asked q, cl.asked ++ [q], cl.answered⟩ ex := by
  obtain ⟨qs, rs, hholds, hasked, hanswered⟩ := h
  obtain ⟨rfl, rfl⟩ := hholds.of_idle hline
  rw [List.append_nil] at hasked
  exact ⟨[q], [], .asked q, congrArg (· ++ [q]) hasked, hanswered⟩

theorem Verdict.eq_of_serving {v : Verdict} {c c' : C} (h : v.phase c = .serving c') : c' = c := by
  cases v with
  | answers => exact (Phase.serving.inj h).symm
  | leaves => cases h
  | stops => cases h

theorem Verdict.line_holds (sv : Service Q R S) (r : R) :
    ((sv.verdict r).line r : Line Q R).Holds sv [] [r] := by
  cases hv : sv.verdict r with
  | answers => exact .answered r
  | leaves => exact .closed (by rw [hv]; exact Verdict.noConfusion)
  | stops => exact .closed (by rw [hv]; exact Verdict.noConfusion)

theorem Client.Follows.handle {q : Q} (h : cl.Follows sv ex) (hline : cl.line = .asked q) (r : R) :
    Client.Follows sv ⟨(sv.verdict r).line r, cl.asked, cl.answered⟩ (ex ++ [(q, r)]) := by
  obtain ⟨qs, rs, hholds, hasked, hanswered⟩ := h
  obtain ⟨rfl, rfl⟩ := hholds.of_asked hline
  rw [List.append_nil] at hanswered
  refine ⟨[], [r], Verdict.line_holds sv r, ?_, ?_⟩
  · rw [List.map_append, List.append_nil]
    exact hasked
  · rw [List.map_append, hanswered]
    rfl

theorem Client.Follows.hear {r : R} (h : cl.Follows sv ex) (hline : cl.line = .answered r) :
    Client.Follows sv ⟨.idle, cl.asked, cl.answered ++ [r]⟩ ex := by
  obtain ⟨qs, rs, hholds, hasked, hanswered⟩ := h
  obtain ⟨rfl, rfl⟩ := hholds.of_answered hline
  exact ⟨[], [], .idle, hasked, hanswered.trans (List.append_nil _).symm⟩

/-- No request is made up. -/
theorem Client.Follows.asked (h : cl.Follows sv ex) : ex.map Prod.fst <+: cl.asked := by
  obtain ⟨qs, _, _, hasked, _⟩ := h
  exact ⟨qs, hasked.symm⟩

/-- No reply is lost, doubled or out of order. -/
theorem Client.Follows.answered (h : cl.Follows sv ex) : cl.answered <+: ex.map Prod.snd := by
  obtain ⟨_, rs, _, _, hanswered⟩ := h
  exact ⟨rs, hanswered.symm⟩

/-- At most one request is under way. -/
theorem Client.Follows.under_way (h : cl.Follows sv ex) : cl.asked.length ≤ cl.answered.length + 1 := by
  obtain ⟨qs, rs, hholds, hasked, hanswered⟩ := h
  have hasked_len := congrArg List.length hasked
  have hanswered_len := congrArg List.length hanswered
  simp only [List.length_append, List.length_map] at hasked_len hanswered_len
  have hone := hholds.length
  omega

end Client

/-! ## Interleavings -/

variable [DecidableEq C]

/-- A client may connect and ask before it is accepted. It waits for the answer
    before it asks again, and the server goes on to another when the session ends. -/
inductive Step (sv : Service Q R S) : State C Q R S → State C Q R S → Prop where
  | connect {s : State C Q R S} {c : C} (hup : s.phase ≠ .down) (hnew : s.client c = none) :
    Step sv s { s with
      backlog := s.backlog ++ [c]
      client := Function.update s.client c (some ⟨.idle, [], []⟩) }
  | ask {s : State C Q R S} {c : C} {cl : Client Q R} {q : Q} (hc : s.client c = some cl)
    (hline : cl.line = .idle) :
    Step sv s { s with
      client := Function.update s.client c (some ⟨.asked q, cl.asked ++ [q], cl.answered⟩) }
  | accept {s : State C Q R S} {c : C} {rest : List C} (hphase : s.phase = .accepting)
    (hbacklog : s.backlog = c :: rest) :
    Step sv s { s with
      phase := .serving c
      backlog := rest
      accepted := s.accepted ++ [c] }
  | handle {s : State C Q R S} {c : C} {cl : Client Q R} {q : Q} {r : R} {store : S}
    (hphase : s.phase = .serving c) (hc : s.client c = some cl) (hline : cl.line = .asked q)
    (hr : sv.handle s.store q = some (r, store)) :
    Step sv s { s with
      phase := (sv.verdict r).phase c
      store := store
      client := Function.update s.client c (some ⟨(sv.verdict r).line r, cl.asked, cl.answered⟩)
      log := s.log ++ [(c, q, r)] }
  | crash {s : State C Q R S} : Step sv s { s with phase := .down }
  | hear {s : State C Q R S} {c : C} {cl : Client Q R} {r : R} (hc : s.client c = some cl)
    (hline : cl.line = .answered r) :
    Step sv s { s with client := Function.update s.client c (some ⟨.idle, cl.asked, cl.answered ++ [r]⟩) }

/-- The states that an interleaving of the clients leads to. -/
def Reachable (sv : Service Q R S) (init : S) (s : State C Q R S) : Prop :=
  Relation.ReflTransGen (Step sv) (start init) s

/-! ## The history -/

/-- The requests and replies of one client. -/
def exchanges (c : C) (log : List (C × Q × R)) : List (Q × R) := (log.filter (·.1 = c)).map Prod.snd

/-- Handling the requests one after the other gives these replies. -/
def Replays (sv : Service Q R S) : S → List (Q × R) → S → Prop
  | s, [], t => s = t
  | s, (q, r) :: rest, t => ∃ s', sv.handle s q = some (r, s') ∧ Replays sv s' rest t

/-- The history is serial: the requests were handled one after the other, session
    after session, in the order in which the clients were accepted. -/
structure Serial (sv : Service Q R S) (init : S) (s : State C Q R S) : Prop where
  replays : Replays sv init (s.log.map Prod.snd) s.store
  sessions : s.log = s.accepted.flatMap fun c => s.log.filter (·.1 = c)
  once : (s.accepted ++ s.backlog).Nodup
  known : ∀ c ∈ s.accepted ++ s.backlog, s.client c ≠ none
  serves : ∀ c, s.phase = .serving c → ∃ earlier, s.accepted = earlier ++ [c]
  follows : ∀ c cl, s.client c = some cl → cl.Follows sv (exchanges c s.log)

/-! ## Every step keeps the history serial -/

theorem exchanges_self (c : C) (log : List (C × Q × R)) (e : Q × R) :
    exchanges c (log ++ [(c, e)]) = exchanges c log ++ [e] := by
  rw [exchanges, List.filter_append, List.map_append, List.filter_cons_of_pos (by simp)]
  rfl

theorem filter_of_ne {c c' : C} (h : c' ≠ c) (log : List (C × Q × R)) (e : Q × R) :
    (log ++ [(c', e)]).filter (·.1 = c) = log.filter (·.1 = c) := by
  rw [List.filter_append, List.filter_cons_of_neg (by simpa using h), List.filter_nil, List.append_nil]

theorem replays_concat {sv : Service Q R S} {l : List (Q × R)} {q : Q} {r : R} {s s' t : S}
    (h : Replays sv s l s') (hr : sv.handle s' q = some (r, t)) : Replays sv s (l ++ [(q, r)]) t := by
  induction l generalizing s with
  | nil =>
    obtain rfl : s = s' := h
    exact ⟨t, hr, rfl⟩
  | cons e l ih =>
    obtain ⟨s₁, hfirst, hrest⟩ := h
    exact ⟨s₁, hfirst, ih hrest⟩

variable {sv : Service Q R S} {init : S} {s t : State C Q R S}

theorem Serial.mem_accepted (h : Serial sv init s) {e : C × Q × R} (he : e ∈ s.log) :
    e.1 ∈ s.accepted := by
  rw [h.sessions, List.mem_flatMap] at he
  obtain ⟨c, hc, he⟩ := he
  rwa [of_decide_eq_true (List.mem_filter.mp he).2]

/-- Who has not been accepted has exchanged nothing. -/
theorem Serial.filter_eq_nil (h : Serial sv init s) {c : C} (hc : c ∉ s.accepted) :
    s.log.filter (·.1 = c) = [] := by
  rw [List.filter_eq_nil_iff]
  intro e he heq
  exact hc (of_decide_eq_true heq ▸ h.mem_accepted he)

/-- A change to one client leaves what is known of the others. -/
theorem forall_client_update {P : C → Client Q R → Prop} {c : C} {cl : Client Q R}
    (h : ∀ c' cl', c' ≠ c → s.client c' = some cl' → P c' cl') (hnew : P c cl) :
    ∀ c' cl', Function.update s.client c (some cl) c' = some cl' → P c' cl' := by
  intro c' cl' hc'
  by_cases heq : c' = c
  · subst heq
    rw [Function.update_self] at hc'
    cases hc'
    exact hnew
  · rw [Function.update_of_ne heq] at hc'
    exact h c' cl' heq hc'

theorem client_update_ne_none {c c' : C} {cl : Client Q R} (h : s.client c' ≠ none) :
    Function.update s.client c (some cl) c' ≠ none := by
  by_cases heq : c' = c
  · rw [heq, Function.update_self]
    exact Option.some_ne_none cl
  · rwa [Function.update_of_ne heq]

theorem serial_start (sv : Service Q R S) (init : S) : Serial sv init (start (C := C) init) where
  replays := rfl
  sessions := rfl
  once := List.nodup_nil
  known _ hc := absurd hc List.not_mem_nil
  serves _ h := by cases h
  follows _ _ h := by cases h

/-- One more message between a client and the network. -/
theorem Serial.client (h : Serial sv init s) {c : C} {cl : Client Q R}
    (hcl : cl.Follows sv (exchanges c s.log)) :
    Serial sv init { s with client := Function.update s.client c (some cl) } where
  replays := h.replays
  sessions := h.sessions
  once := h.once
  known c' hc' := client_update_ne_none (h.known c' hc')
  serves := h.serves
  follows := forall_client_update (fun c' cl' _ => h.follows c' cl') hcl

theorem Serial.connect (h : Serial sv init s) {c : C} (hnew : s.client c = none) :
    Serial sv init { s with
      backlog := s.backlog ++ [c]
      client := Function.update s.client c (some ⟨.idle, [], []⟩) } := by
  have hc : c ∉ s.accepted ++ s.backlog := fun hmem => h.known c hmem hnew
  refine ⟨h.replays, h.sessions, ?_, ?_, h.serves, ?_⟩
  · rw [← List.append_assoc]
    exact List.nodup_append.mpr ⟨h.once, List.nodup_singleton c,
      fun a ha b hb heq => hc (List.mem_singleton.mp hb ▸ heq ▸ ha)⟩
  · intro c' hc'
    rw [← List.append_assoc, List.mem_append, List.mem_singleton] at hc'
    rcases hc' with hold | rfl
    · exact client_update_ne_none (h.known c' hold)
    · change Function.update s.client c' _ c' ≠ none
      rw [Function.update_self]
      exact Option.some_ne_none _
  · refine forall_client_update (fun c' cl' _ => h.follows c' cl') ?_
    rw [exchanges, h.filter_eq_nil (fun hmem => hc (List.mem_append_left _ hmem))]
    exact ⟨[], [], .idle, rfl, rfl⟩

theorem Serial.accept (h : Serial sv init s) {c : C} {rest : List C} (hbacklog : s.backlog = c :: rest) :
    Serial sv init { s with phase := .serving c, backlog := rest, accepted := s.accepted ++ [c] } := by
  have hmoved : (s.accepted ++ [c]) ++ rest = s.accepted ++ s.backlog := by
    rw [hbacklog, List.append_assoc, List.singleton_append]
  have hc : c ∉ s.accepted := by
    have honce := h.once
    rw [hbacklog] at honce
    exact fun hmem => (List.nodup_append.mp honce).2.2 c hmem c List.mem_cons_self rfl
  refine ⟨h.replays, ?_, ?_, ?_, ?_, h.follows⟩
  · change s.log = (s.accepted ++ [c]).flatMap fun c => s.log.filter (·.1 = c)
    rw [List.flatMap_append, ← h.sessions, List.flatMap_singleton, h.filter_eq_nil hc, List.append_nil]
  · exact hmoved ▸ h.once
  · exact fun c' hc' => h.known c' (hmoved ▸ hc')
  · intro c' hc'
    cases hc'
    exact ⟨s.accepted, rfl⟩

/-- The session that is going on is the last one, and grows at its end. -/
theorem Serial.handle (h : Serial sv init s) {c : C} {cl : Client Q R} {q : Q} {r : R} {store : S}
    (hphase : s.phase = .serving c) (hc : s.client c = some cl) (hline : cl.line = .asked q)
    (hr : sv.handle s.store q = some (r, store)) :
    Serial sv init { s with
      phase := (sv.verdict r).phase c
      store := store
      client := Function.update s.client c (some ⟨(sv.verdict r).line r, cl.asked, cl.answered⟩)
      log := s.log ++ [(c, q, r)] } := by
  obtain ⟨earlier, haccepted⟩ := h.serves c hphase
  have hearlier : ∀ c' ∈ earlier, c ≠ c' := by
    have honce := (List.nodup_append.mp h.once).1
    rw [haccepted] at honce
    exact fun c' hc' heq => (List.nodup_append.mp honce).2.2 c' hc' c (List.mem_singleton_self c) heq.symm
  refine ⟨?_, ?_, h.once, fun c' hc' => client_update_ne_none (h.known c' hc'), ?_, ?_⟩
  · rw [List.map_append]
    exact replays_concat h.replays hr
  · change s.log ++ [(c, q, r)] = s.accepted.flatMap fun c' => (s.log ++ [(c, q, r)]).filter (·.1 = c')
    have hold : (earlier.flatMap fun c' => (s.log ++ [(c, q, r)]).filter (·.1 = c')) =
        earlier.flatMap fun c' => s.log.filter (·.1 = c') :=
      List.flatMap_congr fun c' hc' => filter_of_ne (hearlier c' hc') s.log (q, r)
    conv_lhs => rw [h.sessions]
    rw [haccepted, List.flatMap_append, List.flatMap_append, hold, List.flatMap_singleton,
      List.flatMap_singleton,
      List.filter_append, List.append_assoc, List.filter_cons_of_pos (by simp), List.filter_nil]
  · intro c' hc'
    obtain rfl : c' = c := Verdict.eq_of_serving hc'
    exact ⟨earlier, haccepted⟩
  · refine forall_client_update (fun c' cl' hne hc' => ?_) ?_
    · have hsame : exchanges c' (s.log ++ [(c, q, r)]) = exchanges c' s.log :=
        congrArg (List.map Prod.snd) (filter_of_ne hne.symm s.log (q, r))
      change cl'.Follows sv (exchanges c' (s.log ++ [(c, q, r)]))
      rw [hsame]
      exact h.follows c' cl' hc'
    · change Client.Follows sv _ (exchanges c (s.log ++ [(c, q, r)]))
      rw [exchanges_self]
      exact (h.follows c cl hc).handle hline r

theorem Serial.step (h : Serial sv init s) (hstep : Step sv s t) : Serial sv init t := by
  cases hstep with
  | connect _ hnew => exact h.connect hnew
  | ask hc hline => exact h.client ((h.follows _ _ hc).ask hline _)
  | accept _ hbacklog => exact h.accept hbacklog
  | handle hphase hc hline hr => exact h.handle hphase hc hline hr
  | crash =>
    refine ⟨h.replays, h.sessions, h.once, h.known, ?_, h.follows⟩
    intro c hc
    cases hc
  | hear hc hline => exact h.client ((h.follows _ _ hc).hear hline)

/-- Whatever the interleaving, the history is serial. -/
theorem Reachable.serial (h : Reachable sv init s) : Serial sv init s := by
  induction h with
  | refl => exact serial_start sv init
  | tail _ hstep ih => exact ih.step hstep

end SerialServer
