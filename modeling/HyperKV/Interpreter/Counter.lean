import HyperKV.Interpreter.Faults

open Outcome OpenAddressing

namespace hyperkv

variable {mc : Machine} {ht : HashTable}

/-! ## Runs of one table -/

/-- Every insertion of a resize that the operation triggers takes a slot. -/
def htable_rehashes (mc : Machine) (ht : HashTable) : HashOp → Bool
  | .set key value =>
    ht.items.any (fun item => item.key = key) ||
      (htable_scheme mc).growLands ((htable_scheme mc).rehashLands (htable_scheme mc).takesSpot 1) ht
        ⟨.STR_T, key, .str value⟩
  | .del key => (htable_scheme mc).shrinkLands (htable_scheme mc).takesSpot 1 ht key

/-- The same of a set, whose insertions a second copy of a member stops too. -/
def set_rehashes (mc : Machine) (set : CSet) : SetOp → Bool
  | .add m => (set_scheme mc).growLands ((set_scheme mc).rehashLands (set_scheme mc).takesSpot 1) set m
  | .rem m => (set_scheme mc).shrinkLands (set_scheme mc).takesSpot 1 set m

theorem htable_set_counted (h : TableOk mc ht) (hcount : Scheme.Counted ht) {key value : CStr}
    (hrehash : htable_rehashes mc ht (.set key value)) :
    Ensures AnyFault (htable_set mc ht key value) (fun r => Scheme.Counted r.1) := by
  refine (htable_set_cases h key value).anyFault.mono ?_
  rintro ⟨ht', done⟩ (⟨habsent, _, hinsert⟩ | ⟨p, item, _, _, heq⟩ | ⟨p, item, hold, _, heq⟩)
  · have hgrow := (Bool.or_eq_true_iff.mp hrehash).resolve_left (fun hany => ?_)
    · exact (Ensures.map (fromTable_any
        (Scheme.insert_counted (htable_lawful mc) 0 h.findable hcount h.sized hgrow))).of_eq_ok hinsert
    · obtain ⟨item, hmem, hkey⟩ := List.any_eq_true.mp hany
      exact habsent item hmem (of_decide_eq_true hkey)
  · cases heq
    exact hcount
  · cases heq
    exact hcount.replace hold.slot

theorem hashOp_step_counted (h : TableOk mc ht) (hcount : Scheme.Counted ht) (op : HashOp)
    (hrehash : htable_rehashes mc ht op) :
    Ensures (IndexFault mc) (op.step mc ht) (fun ht' => TableOk mc ht' ∧ Scheme.Counted ht') := by
  cases op with
  | set key value =>
    exact Ensures.map (((htable_set_spec h key value).and (htable_set_counted h hcount hrehash)).mono
      (fun _ hr => ⟨hr.1.1, hr.2⟩))
  | del key =>
    have hdel : Ensures AnyFault (htable_del mc ht key) (fun r => Scheme.Counted r.1) :=
      fromTable_any (Scheme.remove_counted (htable_lawful mc) 0 h.findable hcount h.sized hrehash)
    exact Ensures.map (((htable_del_spec h key).and hdel).mono (fun _ hr => ⟨hr.1.1, hr.2⟩))

theorem htable_run_counted (mc : Machine) {size : Int} (hsize : size ≤ 2147483647) (ops : List HashOp)
    (hrehash : meets (HashOp.step mc) (htable_rehashes mc) (htable_init size) ops) :
    Ensures (IndexFault mc) (ops.foldlM (HashOp.step mc) (htable_init size))
      (fun ht => TableOk mc ht ∧ Scheme.Counted ht) :=
  Ensures.invariant _ (fun _ op h hop => hashOp_step_counted h.1 h.2 op hop) ops _
    ⟨htable_init_ok mc (fun _ => hsize), Scheme.counted_empty _⟩ hrehash

theorem setOp_step_counted {set : CSet} (h : SetOk mc set) (hcount : Scheme.Counted set) (op : SetOp)
    (hrehash : set_rehashes mc set op) :
    Ensures (IndexFault mc) (op.step mc set) (fun set' => SetOk mc set' ∧ Scheme.Counted set') := by
  cases op with
  | add m =>
    have hadd : Ensures AnyFault (set_add mc set m) (fun r => Scheme.Counted r.1) :=
      fromTable_any (Scheme.insert_counted (set_lawful mc) 0 h.findable hcount h.sized hrehash)
    exact Ensures.map (((set_add_spec h m).and hadd).mono (fun _ hr => ⟨set_add_ok hr.1, hr.2⟩))
  | rem m =>
    have hrem : Ensures AnyFault (set_rem mc set m) (fun r => Scheme.Counted r.1) :=
      fromTable_any (Scheme.remove_counted (set_lawful mc) 0 h.findable hcount h.sized hrehash)
    exact Ensures.map (((set_rem_spec h m).and hrem).mono (fun _ hr => ⟨set_rem_ok h hr.1, hr.2⟩))

theorem set_run_counted (mc : Machine) {size : Int} (hsize : size ≤ 2147483647) (ops : List SetOp)
    (hrehash : meets (SetOp.step mc) (set_rehashes mc) (set_init size) ops) :
    Ensures (IndexFault mc) (ops.foldlM (SetOp.step mc) (set_init size))
      (fun set => SetOk mc set ∧ Scheme.Counted set) :=
  Ensures.invariant _ (fun _ op h hop => setOp_step_counted h.1 h.2 op hop) ops _
    ⟨set_init_ok mc (fun _ => hsize), Scheme.counted_empty _⟩ hrehash

/-! ## The observers -/

/-- `HLEN` answers the counter. -/
theorem interpret_hlen (h : StoreOk mc ht) {key : CStr} {t : HashTable} (hstored : Stored ht key (.hash t)) :
    Ensures (IndexFault mc) (interpret mc ht ⟨.HLEN, [key]⟩) (fun r => r = (reply_integer t.used, ht)) := by
  have htyped : TypedAt ht key .HASH_T := hstored.typedAt h
  rw [interpret]
  change Ensures _ (exec_hlen mc ht ⟨.HLEN, [key]⟩) _
  rw [exec_hlen]
  refine typed_ensures h key (fun _ => Missed.indexFault) rfl rfl rfl htyped
    ((htable_hlen_spec h htyped).bind ?_)
  rintro n (⟨habsent, _⟩ | ⟨t', hstored', rfl⟩)
  · exact absurd habsent hstored.not_absent
  · cases hstored.unique h.table hstored'
    rfl

/-- `HKEYS` lists every field when the counter is exact. -/
theorem interpret_hkeys (h : StoreOk mc ht) {key : CStr} {t : HashTable} (hstored : Stored ht key (.hash t))
    (hcount : Scheme.Counted t) :
    Ensures (IndexFault mc) (interpret mc ht ⟨.HKEYS, [key]⟩)
      (fun r => r = (reply_array (some (t.items.map HashTableItem.key)), ht)) := by
  have htyped : TypedAt ht key .HASH_T := hstored.typedAt h
  rw [interpret]
  change Ensures _ (exec_hkeyvals mc true ht ⟨.HKEYS, [key]⟩) _
  rw [exec_hkeyvals]
  refine typed_ensures h key (fun _ => Missed.indexFault) rfl rfl rfl htyped
    ((htable_hkeyvals_spec h htyped true).bind ?_)
  rintro r (⟨habsent, _⟩ | ⟨t', hstored', hlisted⟩)
  · exact absurd habsent hstored.not_absent
  · cases hstored.unique h.table hstored'
    rw [hlisted.counted hcount, List.map_eq_flatMap]
    rfl

/-! ## The last field or member -/

/-- A loop that removes named elements from one container: when all of them are
    named, and a container with elements is never counted empty, the key is gone
    at the end. `Left` says what is known of a container with these names left. -/
theorem container_emptied {C : Type} {value : C → Value} (used : C → Int) {Left : C → List CStr → Prop}
    {op : HashTable → CStr → Exec (HashTable × Bool)} {key : CStr} {c : C} {names : List CStr}
    (hop : ∀ ht c name rest, StoreOk mc ht → Stored ht key (value c) → Left c (name :: rest) →
      Ensures (IndexFault mc) (op ht name) (fun r => StoreOk mc r.1 ∧ ∃ c', Left c' rest ∧
        if used c' = 0 then Absent r.1 key else Stored r.1 key (value c')))
    (hmissing : ∀ ht name, StoreOk mc ht → Absent ht key →
      Ensures (IndexFault mc) (op ht name) (fun r => r = (ht, false)))
    (hempty : ∀ c, Left c [] → used c = 0)
    (h : StoreOk mc ht) (hstored : Stored ht key (value c)) (hleft : Left c names) (hnames : names ≠ []) :
    Ensures (IndexFault mc) (do let (oks, ht) ← count_oks op names ht; return (reply_integer oks, ht))
      (fun r => Absent r.2 key) := by
  refine (count_oks_loop (fun rest ht => StoreOk mc ht ∧ (Absent ht key ∨
    ∃ c, Stored ht key (value c) ∧ Left c rest ∧ (rest = [] → used c ≠ 0))) ?_ names
    ⟨h, Or.inr ⟨c, hstored, hleft, fun hnil => absurd hnil hnames⟩⟩).bind ?_
  · rintro name rest ht ⟨hok, habsent | ⟨c, hstored, hleft, _⟩⟩
    · refine (hmissing ht name hok habsent).mono ?_
      rintro r rfl
      exact ⟨hok, Or.inl habsent⟩
    · refine (hop ht c name rest hok hstored hleft).mono ?_
      rintro r ⟨hok', c', hleft', hdropped⟩
      refine ⟨hok', ?_⟩
      split at hdropped
      · exact Or.inl hdropped
      · rename_i hused
        exact Or.inr ⟨c', hdropped, hleft', fun _ => hused⟩
  · rintro r ⟨_, habsent | ⟨c, _, hleft, hused⟩⟩
    · exact habsent
    · exact absurd (hempty c hleft) (hused rfl)

/-- A hash that counts right, all of whose fields are still to be removed, by
    removals whose resizes lose nothing. -/
structure HashLeft (mc : Machine) (t : HashTable) (fields : List CStr) : Prop where
  counted : Scheme.Counted t
  named : ∀ item ∈ t.items, item.key ∈ fields
  rehashes : meets (HashOp.step mc) (htable_rehashes mc) t (fields.map HashOp.del)

theorem HashLeft.del {t : HashTable} {field : CStr} {rest : List CStr} (h : HashLeft mc t (field :: rest))
    (hok : TableOk mc t) :
    Ensures (IndexFault mc) (htable_del mc t field) (fun r => HashLeft mc r.1 rest) := by
  have hmeets := h.rehashes
  rw [List.map_cons, meets_cons] at hmeets
  have hcounted := (hashOp_step_counted hok h.counted (.del field) hmeets.1).and hmeets.2
  refine ((htable_del_spec hok field).and (ensures_map.mp hcounted).anyFault).mono ?_
  rintro r ⟨⟨_, hmem⟩, ⟨_, hcount⟩, hrest⟩
  refine ⟨hcount, fun item hin => ?_, hrest⟩
  obtain ⟨hold, hne⟩ := hmem item hin
  exact (List.mem_cons.mp (h.named item hold)).resolve_left hne

theorem HashLeft.used {t : HashTable} (h : HashLeft mc t []) : t.used = 0 := by
  have hnil : t.items = [] :=
    List.eq_nil_iff_forall_not_mem.mpr (fun item hmem => List.not_mem_nil (h.named item hmem))
  rw [h.counted, hnil]
  rfl

theorem interpret_hdel_last (h : StoreOk mc ht) {key : CStr} {t : HashTable} {fields : List CStr}
    (hstored : Stored ht key (.hash t)) (hleft : HashLeft mc t fields) (hfields : fields ≠ []) :
    Ensures (IndexFault mc) (interpret mc ht ⟨.HDEL, key :: fields⟩) (fun r => Absent r.2 key) := by
  have hargc : (key :: fields).length ≥ 2 := Nat.succ_le_succ (List.length_pos_iff.mpr hfields)
  rw [interpret]
  change Ensures _ (exec_hdel mc ht ⟨.HDEL, key :: fields⟩) _
  rw [exec_hdel]
  refine typed_ensures h key (fun _ => Missed.indexFault) rfl (decide_eq_true hargc) rfl
    (hstored.typedAt h) ?_
  refine container_emptied Table.used ?_ ?_ (fun _ => HashLeft.used) h hstored hleft hfields
  · intro ht t field rest hok hstored hleft
    refine (htable_hdel_spec hok (hstored.typedAt hok) field).mono ?_
    rintro r ⟨hok', ⟨habsent, _⟩ | ⟨t₀, t', hstored₀, hdel, hdropped⟩⟩
    · exact absurd habsent hstored.not_absent
    · cases hstored.unique hok.table hstored₀
      obtain ⟨ops, hrun⟩ := hstored.hash_run hok
      exact ⟨hok', t', (hleft.del (htable_run_hashOk hrun).table).of_eq_ok hdel, hdropped⟩
  · intro ht field hok habsent
    refine (htable_hdel_spec hok (habsent.typedAt _) field).mono ?_
    rintro r ⟨_, ⟨_, heq⟩ | ⟨_, _, hstored, _⟩⟩
    · exact heq
    · exact absurd habsent hstored.not_absent

/-- A set that counts right, all of whose live slots are still to be removed. -/
structure SetLeft (mc : Machine) (set : CSet) (members : List CStr) : Prop where
  ok : SetOk mc set
  counted : Scheme.Counted set
  named : (set_members set).Subperm members
  rehashes : meets (SetOp.step mc) (set_rehashes mc) set (members.map SetOp.rem)

theorem SetLeft.rem {set : CSet} {m : CStr} {rest : List CStr} (h : SetLeft mc set (m :: rest)) :
    Ensures (IndexFault mc) (set_rem mc set m) (fun r => SetLeft mc r.1 rest) := by
  have hmeets := h.rehashes
  rw [List.map_cons, meets_cons] at hmeets
  have hcounted := (setOp_step_counted h.ok h.counted (.rem m) hmeets.1).and hmeets.2
  refine ((set_rem_spec h.ok m).and (ensures_map.mp hcounted).anyFault).mono ?_
  rintro ⟨set', found⟩ ⟨hremoved, ⟨hok, hcount⟩, hrest⟩
  refine ⟨hok, hcount, ?_, hrest⟩
  have herase : ((set_members set).erase m).Subperm rest := by
    have := h.named.erase m
    rwa [List.erase_cons_head] at this
  cases found with
  | false =>
    obtain ⟨rfl, hnone⟩ := hremoved
    have hnot : m ∉ set_members set' := fun hmem => hnone m hmem rfl
    rwa [List.erase_of_not_mem hnot] at herase
  | true =>
    obtain ⟨p, x, hslot, rfl, hresized⟩ := hremoved
    have hperm := (Table.items_write_deleted hslot).erase x
    rw [List.erase_cons_head] at hperm
    exact hresized.subperm.trans (hperm.symm.subperm.trans herase)

theorem SetLeft.used {set : CSet} (h : SetLeft mc set []) : set.used = 0 := by
  have hnil : set.items = [] := List.subperm_nil.mp h.named
  rw [h.counted, hnil]
  rfl

theorem interpret_srem_last (h : StoreOk mc ht) {key : CStr} {set : CSet} {members : List CStr}
    (hstored : Stored ht key (.set set)) (hleft : SetLeft mc set members) (hmembers : members ≠ []) :
    Ensures (IndexFault mc) (interpret mc ht ⟨.SREM, key :: members⟩) (fun r => Absent r.2 key) := by
  have hargc : (key :: members).length ≥ 2 := Nat.succ_le_succ (List.length_pos_iff.mpr hmembers)
  rw [interpret]
  change Ensures _ (exec_srem mc ht ⟨.SREM, key :: members⟩) _
  rw [exec_srem]
  refine typed_ensures h key (fun _ => Missed.indexFault) rfl (decide_eq_true hargc) rfl
    (hstored.typedAt h) ?_
  refine container_emptied Table.used ?_ ?_ (fun _ => SetLeft.used) h hstored hleft hmembers
  · intro ht set m rest hok hstored hleft
    refine (htable_srem_spec hok (hstored.typedAt hok) m).mono ?_
    rintro r ⟨hok', ⟨habsent, _⟩ | ⟨set₀, set', hstored₀, hrem, hdropped⟩⟩
    · exact absurd habsent hstored.not_absent
    · cases hstored.unique hok.table hstored₀
      exact ⟨hok', set', hleft.rem.of_eq_ok hrem, hdropped⟩
  · intro ht m hok habsent
    refine (htable_srem_spec hok (habsent.typedAt _) m).mono ?_
    rintro r ⟨_, ⟨_, heq⟩ | ⟨_, _, hstored, _⟩⟩
    · exact heq
    · exact absurd habsent hstored.not_absent

/-- The counter is exact after every run in which no resize drops an item. The
    hashes and sets of a reachable store come from such runs of their own; where
    the counter of one is exact, `HLEN` answers the number of fields that `HKEYS`
    lists, and removing everything that is left removes the key. -/
theorem counter_exact (mc : Machine) :
    (∀ size ops, size ≤ 2147483647 →
      meets (HashOp.step mc) (htable_rehashes mc) (htable_init size) ops →
      Ensures (IndexFault mc) (ops.foldlM (HashOp.step mc) (htable_init size)) Scheme.Counted) ∧
    (∀ size ops, size ≤ 2147483647 →
      meets (SetOp.step mc) (set_rehashes mc) (set_init size) ops →
      Ensures (IndexFault mc) (ops.foldlM (SetOp.step mc) (set_init size)) Scheme.Counted) ∧
    ∀ ht, Reachable mc ht → ∀ key,
      (∀ t, Stored ht key (.hash t) →
        (∃ ops, htable_run mc ops = .ok t) ∧
        (Scheme.Counted t → ∃ fields,
          Ensures (IndexFault mc) (interpret mc ht ⟨.HLEN, [key]⟩)
            (fun r => r = (reply_integer fields.length, ht)) ∧
          Ensures (IndexFault mc) (interpret mc ht ⟨.HKEYS, [key]⟩)
            (fun r => r = (reply_array (some fields), ht))) ∧
        ∀ fields, fields ≠ [] → Scheme.Counted t → (∀ item ∈ t.items, item.key ∈ fields) →
          meets (HashOp.step mc) (htable_rehashes mc) t (fields.map HashOp.del) →
          Ensures (IndexFault mc) (interpret mc ht ⟨.HDEL, key :: fields⟩) (fun r => Absent r.2 key)) ∧
      ∀ set, Stored ht key (.set set) →
        (∃ ops, set_run mc ops = .ok set) ∧
        ∀ members, members ≠ [] → Scheme.Counted set → (set_members set).Subperm members →
          meets (SetOp.step mc) (set_rehashes mc) set (members.map SetOp.rem) →
          Ensures (IndexFault mc) (interpret mc ht ⟨.SREM, key :: members⟩) (fun r => Absent r.2 key) := by
  refine ⟨fun size ops hsize hrehash => (htable_run_counted mc hsize ops hrehash).mono (fun _ h => h.2),
    fun size ops hsize hrehash => (set_run_counted mc hsize ops hrehash).mono (fun _ h => h.2), ?_⟩
  intro ht hreach key
  have hok := hreach.storeOk
  constructor
  · intro t hstored
    refine ⟨hstored.hash_run hok, fun hcount => ⟨t.items.map HashTableItem.key, ?_, ?_⟩, ?_⟩
    · rw [List.length_map, ← hcount]
      exact interpret_hlen hok hstored
    · exact interpret_hkeys hok hstored hcount
    · exact fun fields hne hcount hnamed hrehash =>
        interpret_hdel_last hok hstored ⟨hcount, hnamed, hrehash⟩ hne
  · intro set hstored
    obtain ⟨ops, hrun⟩ := hstored.set_run hok
    exact ⟨⟨ops, hrun⟩, fun members hne hcount hnamed hrehash =>
      interpret_srem_last hok hstored ⟨set_run_setOk hrun, hcount, hnamed, hrehash⟩ hne⟩

theorem counter_exact_removed :
    Ensures (IndexFault machine)
      ([.set (cstr "a") (cstr "1"), .set (cstr "b") (cstr "2"), .del (cstr "a")].foldlM
        (HashOp.step machine) (htable_init 2)) Scheme.Counted ∧
    Ensures (IndexFault machine) ([.add (cstr "a"), .add (cstr "b"), .rem (cstr "a")].foldlM
      (SetOp.step machine) (set_init 2)) Scheme.Counted ∧
    Ensures (IndexFault machine)
      (run_commands machine [⟨.HSET, [cstr "h", cstr "a", cstr "1", cstr "b", cstr "2"]⟩,
        ⟨.SADD, [cstr "s", cstr "a", cstr "b"]⟩])
      (fun ht =>
        (∃ fields,
          Ensures (IndexFault machine) (interpret machine ht ⟨.HLEN, [cstr "h"]⟩)
            (fun r => r = (reply_integer fields.length, ht)) ∧
          Ensures (IndexFault machine) (interpret machine ht ⟨.HKEYS, [cstr "h"]⟩)
            (fun r => r = (reply_array (some fields), ht))) ∧
        Ensures (IndexFault machine) (interpret machine ht ⟨.HDEL, [cstr "h", cstr "a", cstr "b"]⟩)
          (fun r => Absent r.2 (cstr "h")) ∧
        Ensures (IndexFault machine) (interpret machine ht ⟨.SREM, [cstr "s", cstr "a", cstr "b"]⟩)
          (fun r => Absent r.2 (cstr "s"))) := by
  refine ⟨(counter_exact machine).1 _ _ (by decide) (by decide +kernel),
    (counter_exact machine).2.1 _ _ (by decide) (by decide +kernel), ?_⟩
  have hstored : Ensures (IndexFault machine)
      (run_commands machine [⟨.HSET, [cstr "h", cstr "a", cstr "1", cstr "b", cstr "2"]⟩,
        ⟨.SADD, [cstr "s", cstr "a", cstr "b"]⟩])
      (fun ht =>
        storesHash ht (cstr "h") (fun t =>
          decide (Scheme.Counted t) && decide (∀ item ∈ t.items, item.key ∈ [cstr "a", cstr "b"]) &&
            meets (HashOp.step machine) (htable_rehashes machine) t
              ([cstr "a", cstr "b"].map HashOp.del)) = true ∧
        storesSet ht (cstr "s") (fun st =>
          decide (Scheme.Counted st) && decide ((set_members st).Subperm [cstr "a", cstr "b"]) &&
            meets (SetOp.step machine) (set_rehashes machine) st
              ([cstr "a", cstr "b"].map SetOp.rem)) = true) := by
    decide +kernel
  refine hstored.mono_eq ?_
  rintro ht hrun ⟨hhash, hset⟩
  have hcounter := (counter_exact machine).2.2 ht ⟨_, hrun⟩
  obtain ⟨t, ht, hcheck⟩ := storesHash_iff.mp hhash
  obtain ⟨st, hst, hcheck'⟩ := storesSet_iff.mp hset
  simp only [Bool.and_eq_true, decide_eq_true_eq] at hcheck hcheck'
  obtain ⟨_, hfields, hhdel⟩ := (hcounter _).1 t ht
  obtain ⟨_, hsrem⟩ := (hcounter _).2 st hst
  exact ⟨hfields hcheck.1.1, hhdel _ (by simp) hcheck.1.1 hcheck.1.2 hcheck.2,
    hsrem _ (by simp) hcheck'.1.1 hcheck'.1.2 hcheck'.2⟩

/-- Growing to five slots moves `i` to a slot that every probe of `d` looks at,
    and `d` is dropped while it stays counted. -/
theorem counter_drifts :
    ¬ Ensures (IndexFault machine)
      (htable_run machine [.set (cstr "d") (cstr "1"), .set (cstr "i") (cstr "2")]) Scheme.Counted := by
  decide +kernel

end hyperkv
