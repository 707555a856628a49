import HyperKV.Keyspace.Collections
import HyperKV.Keyspace.Strings

open Outcome OpenAddressing KeyedStore

namespace hyperkv

variable {mc : Machine} {ht : HashTable} {db : Keyspace}

theorem fns_follow (hcast : mc.cast ≠ none) (type : CommandType) : Follows mc type := by
  cases type with
  | DEL => exact del_follows mc
  | EXISTS => exact exists_follows mc
  | TYPE => exact type_follows mc
  | SET => exact set_follows mc
  | GET => exact get_follows mc
  | MSET => exact mset_follows mc
  | MGET => exact mget_follows hcast
  | INCR => exact incr_follows mc
  | DECR => exact decr_follows mc
  | INCRBY => exact incrby_follows mc
  | DECRBY => exact decrby_follows mc
  | STRLEN => exact strlen_follows mc
  | HSET => exact hset_follows mc
  | HGET => exact hget_follows mc
  | HDEL => exact hdel_follows mc
  | HGETALL => exact hgetall_follows mc
  | HEXISTS => exact hexists_follows mc
  | HKEYS => exact hkeys_follows mc
  | HVALS => exact hvals_follows mc
  | HMGET => exact hmget_follows mc
  | HLEN => exact hlen_follows mc
  | LPUSH => exact lpush_follows mc
  | LPOP => exact lpop_follows mc
  | RPUSH => exact rpush_follows mc
  | RPOP => exact rpop_follows mc
  | LLEN => exact llen_follows mc
  | LINDEX => exact lindex_follows mc
  | LRANGE => exact lrange_follows mc
  | LSET => exact lset_follows mc
  | LREM => exact lrem_follows mc
  | LPOS => exact lpos_follows mc
  | SADD => exact sadd_follows mc
  | SREM => exact srem_follows mc
  | SISMEMBER => exact sismember_follows mc
  | SMEMBERS => exact smembers_follows mc
  | SMISMEMBER => exact smismember_follows mc
  | QUIT => exact fun hm _ => hm.answer rfl
  | SHUTDOWN => exact fun hm _ => hm.answer rfl
  | UNKNOWN => exact fun hm _ => hm.answer rfl
  | NOOP => exact fun hm _ => hm.answer rfl

theorem interpret_realizes (hcast : mc.cast ≠ none) (hm : Means mc ht db) {cmd : Command}
    (hlands : cmd.lands mc ht) : Realizes mc (interpret mc ht cmd) (Keyspace.exec cmd db) := fns_follow hcast cmd.type hm hlands

/-! ## Runs -/

/-- The replies to a sequence of commands, with the store they leave. -/
def serve (mc : Machine) : List Command → HashTable → Exec (List CStr × HashTable)
  | [], ht => .ok ([], ht)
  | cmd :: rest, ht => do
    let (reply, ht) ← interpret mc ht cmd
    let (replies, ht) ← serve mc rest ht
    return (reply :: replies, ht)

/-- Every command of a run lands where it is executed. -/
def run_lands (mc : Machine) (ht : HashTable) (cmds : List Command) : Bool :=
  meets (fun ht cmd => Prod.snd <$> interpret mc ht cmd) (Command.lands mc) ht cmds

/-- What a run that lands does: it answers as the key space, or does not return
    because some command has no answer. -/
theorem serve_realizes (hcast : mc.cast ≠ none) (hm : Means mc ht db) (cmds : List Command)
    (hlands : run_lands mc ht cmds) :
    (∀ answers : List Answer, (each Keyspace.exec cmds db).1 = answers.map some →
      Ensures (IndexFault mc) (serve mc cmds ht) (fun r =>
        List.Forall₂ Answer.Encodes answers r.1 ∧ Means mc r.2 (each Keyspace.exec cmds db).2)) ∧
    (none ∈ (each Keyspace.exec cmds db).1 → Ensures AnyFault (serve mc cmds ht) (fun _ => False)) := by
  induction cmds generalizing ht db with
  | nil =>
    refine ⟨fun answers h => ?_, fun h => absurd h List.not_mem_nil⟩
    obtain rfl : answers = [] := List.map_eq_nil_iff.mp h.symm
    exact ⟨List.Forall₂.nil, hm⟩
  | cons cmd rest ih =>
    rw [run_lands, meets_cons, ensures_map] at hlands
    have hcmd := interpret_realizes hcast hm hlands.1
    rw [each, serve]
    unfold Realizes at hcmd
    cases hanswer : (Keyspace.exec cmd db).1 with
    | none =>
      rw [hanswer] at hcmd
      constructor
      · intro answers h
        cases answers with
        | nil => cases h
        | cons => cases h
      · exact fun _ => hcmd.bind (fun _ hfalse => hfalse.elim)
    | some answer =>
      rw [hanswer] at hcmd
      have hnext := hcmd.and hlands.2
      constructor
      · intro answers h
        cases answers with
        | nil => cases h
        | cons first others =>
          obtain ⟨hfirst, hothers⟩ := List.cons_eq_cons.mp h
          cases hfirst
          refine hnext.bind ?_
          rintro ⟨reply, ht'⟩ ⟨⟨hreply, hm'⟩, hl⟩
          refine ((ih hm' hl).1 others hothers).bind ?_
          rintro ⟨replies, ht''⟩ ⟨hreplies, hm''⟩
          exact ⟨List.Forall₂.cons hreply hreplies, hm''⟩
      · intro hnone
        have hrest := (List.mem_cons.mp hnone).resolve_left (fun h => by cases h)
        refine hnext.anyFault.bind ?_
        rintro ⟨reply, ht'⟩ ⟨⟨_, hm'⟩, hl⟩
        exact ((ih hm' hl).2 hrest).bind (fun _ hfalse => hfalse.elim)

/-- All four types, a container that is emptied, and commands on keys of another type. -/
def mixed_commands : List Command :=
  [⟨.SET, [cstr "a", cstr "41"]⟩, ⟨.INCR, [cstr "a"]⟩,
    ⟨.HSET, [cstr "b", cstr "a", cstr "x", cstr "b", cstr "y"]⟩,
    ⟨.HGETALL, [cstr "b"]⟩, ⟨.RPUSH, [cstr "l", cstr "x", cstr "y"]⟩, ⟨.LPOP, [cstr "l"]⟩,
    ⟨.LPOP, [cstr "l"]⟩, ⟨.EXISTS, [cstr "l", cstr "a"]⟩, ⟨.SADD, [cstr "s", cstr "m"]⟩,
    ⟨.GET, [cstr "s"]⟩, ⟨.MGET, [cstr "a", cstr "s"]⟩]

end hyperkv
