import HyperKV.Interpreter.Small
import HyperKV.Keyspace.Runs

open Outcome OpenAddressing

namespace hyperkv

variable {ht : HashTable} {k : Nat}

theorem serve_same (cmds : List Command) (h : SmallStore k ht) (hk : k + arguments cmds ≤ 8192) :
    Same (serve machine cmds ht) (serve unbounded cmds ht)
      (fun r => SmallStore (k + arguments cmds) r.2) := by
  induction cmds generalizing k ht with
  | nil => exact Ensures.same h
  | cons cmd rest ih =>
    have htotal : arguments (cmd :: rest) = cmd.argc + arguments rest := rfl
    rw [htotal] at hk
    rw [serve, serve, htotal, ← Nat.add_assoc]
    refine (interpret_same h (by omega)).bind fun r hr => ?_
    exact (ih hr (by omega)).bind fun _ hr' => Ensures.same hr'

/-- What `INCRBY` and `DECRBY` may still run into. -/
def CommandFault (e : Fault) : Prop := e = .nullPointer

instance : DecidablePred CommandFault := fun e => inferInstanceAs (Decidable (e = .nullPointer))

theorem serve_faults (cmds : List Command) (h : StoreOk unbounded ht) :
    Ensures CommandFault (serve unbounded cmds ht) (fun r => StoreOk unbounded r.2) := by
  induction cmds generalizing ht with
  | nil => exact h
  | cons cmd rest ih =>
    rw [serve]
    refine ((interpret_spec h cmd).tolerate fun e he => ?_).bind fun r hr =>
      (ih hr).bind fun _ hr' => hr'
    rcases he with hindex | ⟨_, hnone, _⟩ | ⟨hnull, _⟩
    · exact absurd hindex (not_indexFault .exact _ e)
    · cases hnone
    · exact hnull

/-- At most 70 percent of the slots are counted as used, and not all of them. -/
def Uncrowded {α : Type} (t : Table α) : Prop := load machine t.used t.size ≤ 70 ∧ t.used < t.size

def Value.Uncrowded : Value → Prop
  | .hash t => hyperkv.Uncrowded t
  | .set st => hyperkv.Uncrowded st
  | _ => True

theorem SmallStore.uncrowded (h : SmallStore k ht) (hk : k ≤ 8192) :
    Uncrowded ht ∧ Values Value.Uncrowded ht := by
  refine ⟨h.table.load_le hk, h.values.mono fun value hvalue => ?_⟩
  cases value with
  | hash t => exact SmallTable.load_le hvalue hk
  | set set => exact SmallTable.load_le hvalue hk
  | _ => trivial

/-- Until the commands have brought more than 8192 arguments, whatever they removed
    in between, the 32 bits of the program are never felt: it gives the replies and
    builds the store of exact arithmetic, no probe leaves an array, and no table
    gets crowded. -/
theorem small_runs_exact {cmds : List Command} (hcmds : arguments cmds ≤ 8192) :
    serve machine cmds (htable_init HT_BASE_SIZE) = serve unbounded cmds (htable_init HT_BASE_SIZE) ∧
      Ensures CommandFault (serve machine cmds (htable_init HT_BASE_SIZE))
        (fun r => Uncrowded r.2 ∧ Values Value.Uncrowded r.2) := by
  have hsame := serve_same cmds smallStore_init (by omega)
  refine ⟨hsame.eq, ?_⟩
  rw [hsame.eq]
  have hinit : StoreOk unbounded (htable_init HT_BASE_SIZE) := htable_init_storeOk unbounded (by decide)
  have hfaults := serve_faults cmds hinit
  exact (hfaults.and hsame.ensures).mono fun r hr => hr.2.uncrowded (by omega)

theorem small_runs_exact_mixed :
    serve machine mixed_commands (htable_init HT_BASE_SIZE) =
        serve unbounded mixed_commands (htable_init HT_BASE_SIZE) ∧
      Ensures CommandFault (serve machine mixed_commands (htable_init HT_BASE_SIZE))
        (fun r => Uncrowded r.2 ∧ Values Value.Uncrowded r.2) :=
  small_runs_exact (by decide)

end hyperkv
