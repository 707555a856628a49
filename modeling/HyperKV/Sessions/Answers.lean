import HyperKV.Keyspace.Apart
import HyperKV.Sessions.Serial

open Outcome KeyedStore SerialServer

namespace hyperkv

/-! ## What the clients are answered -/

/-- The replies in the log are the answers of the key space. -/
theorem replies_encode (mc : Machine) (hcast : mc.cast ≠ none) {sys : System}
    (hsequential : sys.Sequential mc)
    (hlands : run_lands mc (htable_init HT_BASE_SIZE) sys.commands) :
    ∃ answers : List Answer, (each Keyspace.exec sys.commands (fun _ => none)).1 = answers.map some ∧
      List.Forall₂ Answer.Encodes answers sys.replies ∧
      Means mc sys.ht (each Keyspace.exec sys.commands (fun _ => none)).2 := by
  obtain ⟨hanswered, hcrashed⟩ := serve_realizes hcast (htable_init_means mc) sys.commands hlands
  by_cases hnone : none ∈ (each Keyspace.exec sys.commands (fun _ => none)).1
  · exact ((hcrashed hnone).of_eq_ok hsequential.served).elim
  · obtain ⟨answers, hanswers⟩ := exists_map_some hnone
    exact ⟨answers, hanswers, (hanswered answers hanswers).of_eq_ok hsequential.served⟩

/-- The replies to the requests of one client. -/
theorem picked_replies (sys : System) (cfd : Nat) :
    picked (fun e => e.1 = cfd) sys.log sys.replies = (exchanges cfd sys.log).map Prod.snd := by
  unfold System.replies exchanges
  rw [picked_map, picked_self, List.map_map]
  rfl

/-- A client that has read some of the replies that encode its answers. -/
theorem forall₂_read {answers : List Answer} {replies resps : List CStr}
    (h : List.Forall₂ Answer.Encodes answers replies) (hread : resps <+: replies) :
    List.Forall₂ Answer.Encodes (answers.take resps.length) resps := by
  have htaken := List.forall₂_take resps.length h
  rwa [← List.prefix_iff_eq_take.mp hread] at htaken

/-- The commands of one client, in its order. -/
def System.commands_of (sys : System) (cfd : Nat) : List Command :=
  (exchanges cfd sys.log).map fun e => command e.1

/-- One client names only keys of a set, and the others name none of it. -/
def System.Owns (sys : System) (cfd : Nat) (S : Set CStr) : Prop :=
  ∀ e ∈ sys.log, ∀ key ∈ (command e.2.1).keys, key ∈ S ↔ e.1 = cfd

instance (sys : System) (cfd : Nat) (S : Set CStr) [DecidablePred (· ∈ S)] : Decidable (sys.Owns cfd S) :=
  inferInstanceAs (Decidable (∀ e ∈ sys.log, ∀ key ∈ (command e.2.1).keys, key ∈ S ↔ e.1 = cfd))

theorem System.Owns.splits {sys : System} {cfd : Nat} {S : Set CStr} (h : sys.Owns cfd S) :
    Splits S (fun e => e.1 = cfd) (fun e : Nat × CStr × CStr => Keyspace.exec (command e.2.1))
      sys.log := by
  refine fun e he => ⟨fun hown => ?_, fun hother => ?_⟩
  · exact Keyspace.exec_local (fun key hkey => (h e he key hkey).mpr (of_decide_eq_true hown))
  · exact Keyspace.exec_local (fun key hkey hin => of_decide_eq_false hother ((h e he key hkey).mp hin))

end hyperkv
