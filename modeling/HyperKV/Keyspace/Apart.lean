import HyperKV.Keyspace.Runs

open Outcome KeyedStore

namespace hyperkv

/-- The keys that a command names. -/
def Command.keys (cmd : Command) : List CStr :=
  match cmd.type with
  | .DEL | .EXISTS | .MGET => cmd.argv
  | .MSET => (pairs cmd.argv).map Prod.fst
  | .QUIT | .SHUTDOWN | .UNKNOWN | .NOOP => []
  | _ => cmd.argv.take 1

namespace Keyspace

variable {S : Set CStr}

theorem tally_local {α : Type} {op : α → Operation CStr Datum Bool} {args : List α}
    (h : ∀ a ∈ args, Local S (op a)) : Local S (tally op args) := (local_each h).map _

/-- A command that answers from its first key. -/
theorem read_local {f : Option Datum → List CStr → Answer} {argv : List CStr}
    (h : ∀ key ∈ argv.take 1, key ∈ S) :
    Local S (read f argv) := by
  cases argv with
  | nil => exact local_ask (fun _ => rfl)
  | cons key args =>
    have hkey := h key List.mem_cons_self
    exact local_ask (fun hst => congrArg (fun d => some (f d args)) (hst hkey))

/-- A command that works on its first key. -/
theorem write_local {f : CStr → List CStr → Operation CStr Datum (Option Answer)} {argv : List CStr}
    (h : ∀ key ∈ argv.take 1, key ∈ S) (hf : ∀ key args, key ∈ S → Local S (f key args)) :
    Local S (write f argv) := by
  cases argv with
  | nil => exact local_ask (fun _ => rfl)
  | cons key args => exact hf key args (h key List.mem_cons_self)

theorem set_local {key value : CStr} (hkey : key ∈ S) : Local S (set key value) := local_focus hkey _

/-- The operations of a loop over arguments, all on one key. -/
theorem tally_local_key {α : Type} {op : α → Option Datum → Bool × Option Datum} {key : CStr}
    (hkey : key ∈ S)
    (args : List α) : Local S (tally (fun a => focus key (op a)) args) :=
  tally_local (fun a _ => local_focus hkey (op a))

theorem push_local {dir : ListDirection} {key : CStr} (hkey : key ∈ S) (values : List CStr) :
    Local S ((each (push dir key) values).map fun lens => some (Answer.int (lens.getLastD 0))) :=
  (local_each (fun _ _ => local_focus hkey _)).map _

theorem pop_local {dir : ListDirection} {key : CStr} (hkey : key ∈ S) :
    Local S ((pop dir key).map fun str => some (Answer.bulk str)) := (local_focus hkey _).map _

theorem lrem_local {count : Int} {key value : CStr} (hkey : key ∈ S) :
    Local S ((lrem key count value).map fun n => some (Answer.int n)) := (local_focus hkey _).map _

/-- An operation on one key, for an argument that is a number. -/
theorem number_local {text : CStr} {op : Int → Operation CStr Datum (Option Answer)}
    (hop : ∀ i, Local S (op i)) :
    Local S ((number text).elim (ask fun _ => some .notInteger) op) := by
  cases number text with
  | none => exact local_ask (fun _ => rfl)
  | some i => exact hop i

/-- What a command does stays within the keys it names. -/
theorem apply_local (type : CommandType) (argv : List CStr)
    (h : ∀ key ∈ Command.keys ⟨type, argv⟩, key ∈ S) :
    Local S (apply type argv) := by
  cases type with
  | DEL => exact tally_local (fun key hkey => local_focus (h key hkey) _)
  | EXISTS =>
    refine tally_local (fun key hkey => local_ask (fun hst => ?_))
    rw [hst (h key hkey)]
  | MGET =>
    refine local_ask (fun {s t} hst => ?_)
    have htold : argv.map (fun key => Datum.told (s key)) = argv.map (fun key => Datum.told (t key)) :=
      List.map_congr_left (fun key hkey => congrArg _ (hst (h key hkey)))
    rw [htold]
  | MSET =>
    have hkeys : ∀ b ∈ pairs argv, b.1 ∈ S := fun b hb => h b.1 (List.mem_map_of_mem hb)
    exact (local_each (fun b hb => set_local (hkeys b hb))).map (fun _ => some Answer.ok)
  | SET =>
    match argv with
    | [] => exact local_ask (fun _ => rfl)
    | [key] => exact (set_local (h key List.mem_cons_self)).map (fun _ => some Answer.ok)
    | [key, value] => exact (set_local (h key List.mem_cons_self)).map (fun _ => some Answer.ok)
    | _ :: _ :: _ :: _ => exact local_ask (fun _ => rfl)
  | INCR => exact write_local h (fun _ _ hkey => local_focus hkey _)
  | DECR => exact write_local h (fun _ _ hkey => local_focus hkey _)
  | INCRBY => exact write_local h (fun _ _ hkey => local_focus hkey _)
  | DECRBY => exact write_local h (fun _ _ hkey => local_focus hkey _)
  | HSET => exact write_local h (fun _ args hkey => tally_local_key hkey (pairs args))
  | HDEL => exact write_local h (fun _ args hkey => tally_local_key hkey args)
  | SADD => exact write_local h (fun _ args hkey => tally_local_key hkey args)
  | SREM => exact write_local h (fun _ args hkey => tally_local_key hkey args)
  | LPUSH => exact write_local h (fun _ args hkey => push_local hkey args)
  | RPUSH => exact write_local h (fun _ args hkey => push_local hkey args)
  | LPOP => exact write_local h (fun _ _ hkey => pop_local hkey)
  | RPOP => exact write_local h (fun _ _ hkey => pop_local hkey)
  | LSET => exact write_local h (fun _ _ hkey => number_local (fun _ => local_focus hkey _))
  | LREM => exact write_local h (fun _ _ hkey => number_local (fun _ => lrem_local hkey))
  | QUIT => exact local_ask (fun _ => rfl)
  | SHUTDOWN => exact local_ask (fun _ => rfl)
  | UNKNOWN => exact local_ask (fun _ => rfl)
  | NOOP => exact local_ask (fun _ => rfl)
  | _ =>
    have hfirst : ∀ key ∈ argv.take 1, key ∈ S := h
    unfold apply
    exact read_local hfirst

/-- The type check of a command looks at a key that it names. -/
theorem typed_congr {cmd : Command} {s t : Keyspace} (h : ∀ key ∈ cmd.keys, key ∈ S)
    (hst : Set.EqOn s t S) :
    typed cmd s = typed cmd t := by
  obtain ⟨type, argv⟩ := cmd
  cases argv with
  | nil => cases type <;> rfl
  | cons key args =>
    cases type <;>
      first
      | rfl
      | exact congrArg (Datum.fits _) (hst (h key List.mem_cons_self))

/-- A command reads and writes the keys it names, and no others. -/
theorem exec_local {cmd : Command} (h : ∀ key ∈ cmd.keys, key ∈ S) : Local S (exec cmd) := by
  have hrefused : ∀ answer : Option Answer, Local S (fun db : Keyspace => (answer, db)) :=
    fun _ => local_ask (fun _ => rfl)
  unfold exec
  by_cases haccepts : cmd.type.accepts cmd.argc
  · simp only [if_pos haccepts]
    exact (apply_local cmd.type cmd.argv h).ite (hrefused _) (fun hst => typed_congr h hst)
  · simp only [if_neg haccepts]
    exact hrefused _

end Keyspace

/-! ## Commands on some keys among others -/

/-- Each command names only keys of `S`, or, when it is not one of ours, none. -/
def Divided (S : Set CStr) (mine : Command → Bool) (cmds : List Command) : Prop :=
  ∀ cmd ∈ cmds, ∀ key ∈ cmd.keys, key ∈ S ↔ mine cmd

instance {S : Set CStr} [DecidablePred (· ∈ S)] {mine : Command → Bool} {cmds : List Command} :
    Decidable (Divided S mine cmds) :=
  inferInstanceAs (Decidable (∀ cmd ∈ cmds, ∀ key ∈ cmd.keys, key ∈ S ↔ mine cmd))

theorem Divided.splits {S : Set CStr} {mine : Command → Bool} {cmds : List Command}
    (h : Divided S mine cmds) :
    Splits S mine Keyspace.exec cmds := by
  refine fun cmd hcmd => ⟨fun hmine => ?_, fun hother => ?_⟩
  · exact Keyspace.exec_local (fun key hkey => (h cmd hcmd key hkey).mpr hmine)
  · refine Keyspace.exec_local (fun key hkey hin => ?_)
    have hmine := (h cmd hcmd key hkey).mp hin
    rw [hother] at hmine
    cases hmine

/-- Two replies tell the same, up to the order in which a hash or set is listed, and
    to what `MGET` makes of keys of another type. -/
def SameAnswer (reply reply' : CStr) : Prop :=
  ∃ answer : Answer, answer.Encodes reply ∧ answer.Encodes reply'

theorem exists_map_some {α : Type} {l : List (Option α)} (h : none ∉ l) :
    ∃ known : List α, l = known.map some := by
  induction l with
  | nil => exact ⟨[], rfl⟩
  | cons a l ih =>
    rw [List.mem_cons, not_or] at h
    obtain ⟨known, rfl⟩ := ih h.2
    cases a with
    | none => exact absurd rfl h.1
    | some a => exact ⟨a :: known, rfl⟩

theorem forall₂_sameAnswer {answers : List Answer} {replies replies' : List CStr}
    (h : List.Forall₂ Answer.Encodes answers replies)
    (h' : List.Forall₂ Answer.Encodes answers replies') :
    List.Forall₂ SameAnswer replies replies' := by
  induction h generalizing replies' with
  | nil =>
    cases h'
    exact List.Forall₂.nil
  | cons hreply _ ih =>
    cases h' with
    | cons hreply' hrest' => exact List.Forall₂.cons ⟨_, hreply, hreply'⟩ (ih hrest')

end hyperkv
