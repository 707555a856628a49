import HyperKV.Htable.Listing
import HyperKV.Interpreter.Faults
import HyperKV.Interpreter.ReadOnly

open Outcome OpenAddressing

namespace hyperkv

variable {mc : Machine} {ht : HashTable} {key : CStr} {Q : HashTable → Prop}

/-- The value, if it is a hash, satisfies `Q`. -/
def Value.HashWith (Q : HashTable → Prop) : Value → Prop
  | .hash t => Q t
  | _ => True

theorem Value.HashWith.mono {Q' : HashTable → Prop} (hQ : ∀ t, Q t → Q' t) {value : Value}
    (h : value.HashWith Q) : value.HashWith Q' := by
  cases value with
  | hash t => exact hQ t h
  | _ => trivial

/-- Every hash in the store satisfies `Q`. -/
def Hashes (Q : HashTable → Prop) (ht : HashTable) : Prop := Values (Value.HashWith Q) ht

/-- A handler that keeps what all hashes satisfy. -/
def KeepsHashes (Q : HashTable → Prop) (handler : Handler) : Prop :=
  ∀ ht cmd, Hashes Q ht → Ensures AnyFault (handler ht cmd) (fun r => Hashes Q r.2)

theorem Hashes.stored (h : Hashes Q ht) {t : HashTable} (hstored : Stored ht key (.hash t)) : Q t := by
  obtain ⟨item, hmem, _, hvalue⟩ := hstored
  have hitem : item.value.HashWith Q := Table.every_items.mp h item hmem
  rw [hvalue] at hitem
  exact hitem

theorem htable_set_hashes (h : Hashes Q ht) (key value : CStr) :
    Ensures AnyFault (htable_set mc ht key value) (fun r => Hashes Q r.1) :=
  htable_set_every h trivial

/-! ## The frames -/

theorem with_argc_hashes {accepted : Nat → Bool} {expected : String} {body : Handler}
    (hbody : KeepsHashes Q body) : KeepsHashes Q (with_argc accepted expected body) :=
  fun ht cmd h => with_argc_ensures (fun _ => hbody ht cmd h) h

theorem with_type_hashes {expected : String} {body : CStr → Handler}
    (hbody : ∀ key, KeepsHashes Q (body key)) : KeepsHashes Q (with_type mc expected body) :=
  fun ht cmd h => with_type_any (fun key => hbody key ht cmd h) h

theorem count_oks_hashes {α : Type} {op : HashTable → α → Exec (HashTable × Bool)} {args : List α}
    (h : Hashes Q ht) (hop : ∀ ht a, Hashes Q ht → Ensures AnyFault (op ht a) (fun r => Hashes Q r.1)) :
    Ensures AnyFault (do let (oks, ht) ← count_oks op args ht; return (reply_integer oks, ht))
      (fun r => Hashes Q r.2) :=
  (count_oks_ensures (Hashes Q) hop args h).bind (fun _ hr => hr)

/-! ## The handlers that write -/

theorem exec_set_hashes : KeepsHashes Q (exec_set mc) := by
  refine with_argc_hashes (fun ht cmd h => ?_)
  refine Ensures.bind (P := Hashes Q) ?_ (fun _ hht => hht)
  split
  · exact Ensures.bind_any (fun key => Ensures.map (htable_set_hashes h key []))
  · split
    · exact Ensures.bind_any (fun key => Ensures.bind_any (fun value =>
        Ensures.map (htable_set_hashes h key value)))
    · exact h

theorem exec_mset_hashes : KeepsHashes Q (exec_mset mc) := by
  refine with_argc_hashes (fun ht cmd h => ?_)
  refine Ensures.bind (P := Hashes Q) ?_ (fun _ hht => hht)
  exact Ensures.foldlM (fun _ ht => Hashes Q ht)
    (fun pair _ _ hht => Ensures.map (htable_set_hashes hht pair.1 pair.2)) (pairs cmd.argv) ht h

theorem exec_step_hashes (missing : String) (answer change : Int) :
    KeepsHashes Q (exec_step mc missing answer change) := by
  refine with_argc_hashes (with_type_hashes (fun key ht cmd h => Ensures.bind_any (fun res => ?_)))
  cases res with
  | none => exact (htable_set_hashes h key _).bind (fun _ hr => hr)
  | some res =>
    dsimp only
    split
    · exact (htable_set_hashes h key _).bind (fun _ hr => hr)
    · exact h

theorem exec_stepby_hashes (combine : Int → Int → Int) : KeepsHashes Q (exec_stepby mc combine) := by
  refine with_argc_hashes (with_type_hashes (fun key ht cmd h =>
    Ensures.bind_any (fun res => Ensures.bind_any (fun operand => ?_))))
  split
  · exact (htable_set_hashes h key _).bind (fun _ hr => hr)
  · refine Ensures.bind_any (fun res => ?_)
    split
    · exact (htable_set_hashes h key _).bind (fun _ hr => hr)
    · exact h

theorem exec_push_hashes (dir : ListDirection) : KeepsHashes Q (exec_push mc dir) := by
  refine with_argc_hashes (with_type_hashes (fun key ht cmd h => ?_))
  refine (Ensures.foldlM (fun _ (r : Int × HashTable) => Hashes Q r.2) ?_ cmd.argv.tail (0, ht) h).bind
    (fun _ hr => hr)
  intro value _ r hr
  exact (htable_push_values hr (fun _ _ => ensures_any _) (ensures_any _)).bind (fun _ hr' => hr')

theorem exec_pop_hashes (dir : ListDirection) : KeepsHashes Q (exec_pop mc dir) := by
  refine with_argc_hashes (with_type_hashes (fun key ht cmd h => ?_))
  refine (htable_pop_values (P := fun _ => True) h (fun ls _ => ?_) key).bind (fun _ hr => hr.1)
  exact (ensures_any _).mono (fun _ _ => ⟨trivial, fun _ _ => trivial⟩)

theorem exec_lset_hashes : KeepsHashes Q (exec_lset mc) := by
  refine with_argc_hashes (with_type_hashes (fun key ht cmd h => Ensures.bind_any (fun index => ?_)))
  split
  · refine Ensures.bind_any ?_
    rintro ⟨code, id⟩
    dsimp only
    split
    · exact h
    · refine Ensures.bind_any (fun value => ?_)
      exact (htable_lset_values h (fun _ _ => ensures_any _) key).bind (fun _ hr => hr)
  · exact h

theorem exec_lrem_hashes : KeepsHashes Q (exec_lrem mc) := by
  refine with_argc_hashes (with_type_hashes (fun key ht cmd h => Ensures.bind_any (fun count => ?_)))
  split
  · refine Ensures.bind_any (fun value => ?_)
    exact (htable_lrem_values h (fun _ _ => ensures_any _) key).bind (fun _ hr => hr)
  · exact h

/-! ## Every command -/

/-- Only `HSET` adds to a hash; every other command keeps whatever removals of a
    field keep. -/
theorem fns_hashes {type : CommandType} (htype : type ≠ .HSET)
    (hdel : ∀ t field, Q t → Ensures AnyFault (htable_del mc t field) (fun r => Q r.1)) :
    KeepsHashes Q (fns mc type) := by
  cases hwrites : type.writes with
  | false => exact fun ht cmd h => (fns_readOnly hwrites ht cmd).mono (fun _ hr => hr ▸ h)
  | true =>
    cases type with
    | DEL =>
      change KeepsHashes Q (exec_del mc)
      refine with_argc_hashes (fun ht cmd h => ?_)
      exact count_oks_hashes h (fun ht key hht => htable_del_every hht key)
    | SET => exact exec_set_hashes
    | MSET => exact exec_mset_hashes
    | INCR => exact exec_step_hashes _ _ _
    | DECR => exact exec_step_hashes _ _ _
    | INCRBY => exact exec_stepby_hashes _
    | DECRBY => exact exec_stepby_hashes _
    | HSET => exact absurd rfl htype
    | HDEL =>
      change KeepsHashes Q (exec_hdel mc)
      refine with_argc_hashes (with_type_hashes (fun key ht cmd h => ?_))
      exact count_oks_hashes h (fun ht field hht => htable_hdel_values hht (fun t ht => hdel t field ht) key)
    | LPUSH => exact exec_push_hashes .LEFT
    | LPOP => exact exec_pop_hashes .LEFT
    | RPUSH => exact exec_push_hashes .RIGHT
    | RPOP => exact exec_pop_hashes .RIGHT
    | LSET => exact exec_lset_hashes
    | LREM => exact exec_lrem_hashes
    | SADD =>
      change KeepsHashes Q (exec_sadd mc)
      refine with_argc_hashes (with_type_hashes (fun key ht cmd h => ?_))
      exact count_oks_hashes h (fun ht value hht =>
        htable_sadd_values hht (fun _ _ => ensures_any _) (ensures_any _))
    | SREM =>
      change KeepsHashes Q (exec_srem mc)
      refine with_argc_hashes (with_type_hashes (fun key ht cmd h => ?_))
      exact count_oks_hashes h (fun ht value hht => htable_srem_values hht (fun _ _ => ensures_any _) key)
    | _ => cases hwrites

variable {n : Nat}

theorem length_pairs (l : List CStr) : 2 * (pairs l).length ≤ l.length := by
  induction l using pairs.induct with
  | case1 a b rest ih =>
    rw [pairs, List.length_cons, List.length_cons, List.length_cons]
    omega
  | case2 l hshape =>
    rw [pairs]
    · exact Nat.zero_le _
    · exact hshape

/-- One field: two arguments, and at most one more counted. -/
theorem htable_hset_covered (h : Hashes (Covered mc n) ht) (hn : mc.load = .int32 → n + 2 ≤ 2147483647)
    (key field value : CStr) :
    Ensures AnyFault (htable_hset mc ht key field value) (fun r => Hashes (Covered mc (n + 2)) r.1) :=
  htable_hset_values h (fun _ => Value.HashWith.mono (fun _ ht => ht.mono (Nat.le_add_right n 2)))
    (fun _ ht => htable_set_covered ht hn field value) (htable_set_covered (covered_init mc n) hn field value)

theorem Hashes.mono {m : Nat} (h : Hashes (Covered mc n) ht) (hnm : n ≤ m) : Hashes (Covered mc m) ht :=
  Values.mono h (fun _ => Value.HashWith.mono (fun _ ht => ht.mono hnm))

theorem exec_hset_covered (h : Hashes (Covered mc n) ht) {cmd : Command}
    (hn : mc.load = .int32 → n + cmd.argc ≤ 2147483647) :
    Ensures AnyFault (exec_hset mc ht cmd) (fun r => Hashes (Covered mc (n + cmd.argc)) r.2) := by
  have hbefore := h.mono (Nat.le_add_right n cmd.argc)
  refine with_argc_ensures (fun _ => with_type_any (fun key => ?_) hbefore) hbefore
  have hlen := length_pairs cmd.argv.tail
  have htail : cmd.argv.tail.length ≤ cmd.argc := by
    rw [List.length_tail]
    exact Nat.sub_le _ _
  -- what the fields left to set may still add
  refine (count_oks_loop (fun rest ht => ∃ m, m + 2 * rest.length ≤ n + cmd.argc ∧
    Hashes (Covered mc m) ht) ?_ (pairs cmd.argv.tail) ⟨n, by omega, h⟩).bind ?_
  · rintro pair rest ht ⟨m, hleft, hht⟩
    rw [List.length_cons] at hleft
    have hset := htable_hset_covered hht (fun hload => by have hle := hn hload; omega) key pair.1 pair.2
    exact hset.mono (fun _ hr => ⟨m + 2, by omega, hr⟩)
  · rintro r ⟨m, hleft, hr⟩
    exact hr.mono (by omega)

theorem interpret_covered (h : Hashes (Covered mc n) ht) (cmd : Command)
    (hn : mc.load = .int32 → n + cmd.argc ≤ 2147483647) :
    Ensures AnyFault (interpret mc ht cmd) (fun r => Hashes (Covered mc (n + cmd.argc)) r.2) := by
  by_cases htype : cmd.type = .HSET
  · rw [interpret, htype]
    exact exec_hset_covered h hn
  · refine (fns_hashes htype (fun t field ht => ?_) ht cmd h).mono (fun _ hr => hr.mono (Nat.le_add_right n _))
    exact htable_del_covered ht (fun hload => by have hle := hn hload; omega) field

/-- The arguments that a sequence of commands brings. -/
def arguments (cmds : List Command) : Nat := (cmds.map Command.argc).sum

theorem run_covered {cmds : List Command} (hn : mc.load = .int32 → arguments cmds ≤ 2147483647) :
    Ensures AnyFault (run_commands mc cmds) (Hashes (Covered mc (arguments cmds))) := by
  refine (Ensures.foldlM (fun rest ht => ∃ n, n + arguments rest = arguments cmds ∧ Hashes (Covered mc n) ht)
    ?_ cmds _ ⟨0, Nat.zero_add _, values_init _⟩).mono ?_
  · rintro cmd rest ht ⟨n, htotal, hht⟩
    have hcons : arguments (cmd :: rest) = cmd.argc + arguments rest := rfl
    have hkept := interpret_covered hht cmd (fun hload => by have hle := hn hload; omega)
    exact Ensures.map (hkept.mono (fun _ hr => ⟨n + cmd.argc, by omega, hr⟩))
  · rintro ht ⟨n, htotal, hht⟩
    exact hht.mono (Nat.le.intro htotal)

/-- In every store that a run of commands reaches, for every key that is missing or
    holds a hash, the three listings agree, and none of their loops leaves the array
    it allocated. The last needs the counter: exact, or 32-bit and not yet wrapped
    by 2^31 arguments. -/
theorem hash_listings_agree (load : IntArith) (casts : Casts) {cmds : List Command} {ht : HashTable}
    (hrun : run_commands ⟨.exact, load, casts⟩ cmds = .ok ht) {key : CStr} (hhash : TypedAt ht key .HASH_T) :
    ListingsAgree ⟨.exact, load, casts⟩ ht key ∧
      ((load = .int32 → arguments cmds ≤ 2147483647) →
        ListingsFit ⟨.exact, load, casts⟩ (arguments cmds) ht key) := by
  have hok : StoreOk ⟨.exact, load, casts⟩ ht := Reachable.storeOk ⟨cmds, hrun⟩
  have hexact := not_indexFault load casts
  refine ⟨listings_agree hok hexact hhash, fun hn => ?_⟩
  have hcovered : Hashes (Covered ⟨.exact, load, casts⟩ (arguments cmds)) ht := (run_covered hn).of_eq_ok hrun
  exact listings_fit hok hexact hhash (fun t hstored => hcovered.stored hstored)

/-- A hash with one of its fields removed again. -/
theorem hash_listings_agree_removed :
    Ensures (fun _ => False)
      (run_commands ⟨.exact, .int32, none⟩
        [⟨.HSET, [cstr "h", cstr "f", cstr "1", cstr "g", cstr "2", cstr "i", cstr "3"]⟩,
          ⟨.HDEL, [cstr "h", cstr "g"]⟩])
      (fun ht => htable_hkeyvals ⟨.exact, .int32, none⟩ ht (cstr "h") true = .ok (some [cstr "f", cstr "i"]) ∧
        ListingsAgree ⟨.exact, .int32, none⟩ ht (cstr "h") ∧ ListingsFit ⟨.exact, .int32, none⟩ 9 ht (cstr "h")) := by
  have hrun : Ensures (fun _ => False)
      (run_commands ⟨.exact, .int32, none⟩
        [⟨.HSET, [cstr "h", cstr "f", cstr "1", cstr "g", cstr "2", cstr "i", cstr "3"]⟩,
          ⟨.HDEL, [cstr "h", cstr "g"]⟩])
      (fun ht => htable_hkeyvals ⟨.exact, .int32, none⟩ ht (cstr "h") true = .ok (some [cstr "f", cstr "i"]) ∧
        TypedAt ht (cstr "h") .HASH_T) := by
    decide +kernel
  refine hrun.mono_eq (fun ht hht hlisted => ⟨hlisted.1, ?_⟩)
  have hagree := hash_listings_agree .int32 none hht hlisted.2
  exact ⟨hagree.1, hagree.2 (fun _ => by decide)⟩

end hyperkv
