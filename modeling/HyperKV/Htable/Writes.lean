import HyperKV.Htable.Store
import HyperKV.List.Sequence

open Outcome OpenAddressing DoublyLinked

namespace hyperkv

variable {mc : Machine} {ht : HashTable} {key : CStr}

theorem htable_search_typed_missed (h : StoreOk mc ht) {type : ItemType} (htyped : TypedAt ht key type) :
    Ensures (Missed mc ht key) (htable_search mc ht key) (fun r => match r with
      | none => Absent ht key
      | some (p, item) => Holds ht key p item ∧ ItemOk mc item ∧ item.type = type) := by
  refine (htable_search_missed h.table key).mono ?_
  intro r hr
  cases r with
  | none => exact hr
  | some found => exact ⟨hr, h.items _ hr.mem, htyped _ hr.mem hr.key_eq⟩

theorem htable_search_typed (h : StoreOk mc ht) {type : ItemType} (htyped : TypedAt ht key type) :
    Ensures (IndexFault mc) (htable_search mc ht key) (fun r => match r with
      | none => Absent ht key
      | some (p, item) => Holds ht key p item ∧ ItemOk mc item ∧ item.type = type) :=
  ensures_of_missed (htable_search_typed_missed h htyped)

theorem htable_set_storeOk (h : StoreOk mc ht) (key value : CStr) :
    Ensures (IndexFault mc) (htable_set mc ht key value) (fun r => StoreOk mc r.1) := by
  refine (htable_set_spec h.table key value).mono (fun r hr => ⟨hr.1, fun item hmem => ?_⟩)
  rcases hr.2 item hmem with rfl | hold
  · trivial
  · exact h.items item hold

/-- A missing key gets a new container, and an existing one is changed behind
    its item: the common shape of `htable_hset`, `htable_push` and `htable_sadd`. -/
private theorem exists_or_insert {α : Type} (h : StoreOk mc ht) {update create : Exec (HashTable × α)}
    {P : HashTable × α → Prop}
    (hupdate : Ensures (IndexFault mc) update P)
    (hcreate : Absent ht key → Ensures (IndexFault mc) create P) :
    Ensures (IndexFault mc) (do if ← htable_exists mc ht key then update else create) P := by
  refine (htable_exists_spec h.table key).bind ?_
  intro b hb
  cases b with
  | true => exact hupdate
  | false =>
    exact hcreate (fun item hmem hkey => Bool.false_ne_true (hb.mpr ⟨item, hmem, hkey⟩))

theorem htable_hset_storeOk (h : StoreOk mc ht) (htyped : TypedAt ht key .HASH_T) (field value : CStr) :
    Ensures (IndexFault mc) (htable_hset mc ht key field value)
      (fun r => StoreOk mc r.1 ∧ TypedAt r.1 key .HASH_T) := by
  refine exists_or_insert h ?_ (fun habsent => ?_)
  · refine (htable_search_typed h htyped).bind ?_
    intro r hr
    cases r with
    | none => exact ⟨h, htyped⟩
    | some found =>
      obtain ⟨hold, hitem, htype⟩ := hr
      obtain ⟨t, hvalue, ops, hrun⟩ := hitem.hash htype
      simp only [hvalue, Value.asHash, ok_bind]
      refine (htable_set_hashOk (htable_run_hashOk hrun) field value).bind_eq ?_
      intro r hset _
      have hitem' := hitem.hash_step hvalue (.set field value) (by rw [HashOp.step, hset]; rfl)
      obtain ⟨hok, hstored⟩ := set_value_storeOk h hold hitem'
      exact ⟨hok, hstored.typedAt hok⟩
  · refine (htable_set_hashOk (htable_init_hashOk mc) field value).bind_eq ?_
    intro r hset _
    have hempty : ItemOk mc ⟨.HASH_T, key, .hash (htable_init HT_BASE_SIZE)⟩ := ⟨[], rfl⟩
    have hitem := hempty.hash_step rfl (.set field value) (by rw [HashOp.step, hset]; rfl)
    exact (htable_insert_storeOk h habsent .HASH_T (.hash r.1) hitem).bind (fun ht' hr => hr)

theorem list_push_spec {ls : CList} {run : List (Nat × CStr)} (h : ls.Linked run) (dir : ListDirection)
    (value : CStr) :
    ∃ ls' run', list_push dir ls value = .ok ls' ∧ run' ≠ [] ∧ ls'.Linked run' ∧
      run'.map Prod.snd = match dir with
        | .LEFT => value :: run.map Prod.snd
        | .RIGHT => run.map Prod.snd ++ [value] := by
  cases dir with
  | LEFT =>
    obtain ⟨ls', hpush, hlinked⟩ := list_lpush_spec h value
    exact ⟨ls', _, hpush, by simp, hlinked, rfl⟩
  | RIGHT =>
    obtain ⟨ls', hpush, hlinked⟩ := list_rpush_spec h value
    exact ⟨ls', _, hpush, by simp, hlinked, by simp⟩

theorem htable_push_storeOk (h : StoreOk mc ht) (htyped : TypedAt ht key .LIST_T) (value : CStr)
    (dir : ListDirection) :
    Ensures (IndexFault mc) (htable_push mc ht key value dir)
      (fun r => StoreOk mc r.1 ∧ TypedAt r.1 key .LIST_T) := by
  refine exists_or_insert h ?_ (fun habsent => ?_)
  · refine (htable_search_typed h htyped).bind ?_
    intro r hr
    cases r with
    | none => exact ⟨h, htyped⟩
    | some found =>
      obtain ⟨hold, hitem, htype⟩ := hr
      obtain ⟨ls, hvalue, run, _, hlinked⟩ := hitem.list htype
      obtain ⟨ls', run', hpush, hne, hlinked', _⟩ := list_push_spec hlinked dir value
      simp only [hvalue, Value.asList, ok_bind, hpush]
      have hitem' : ItemOk mc { found.2 with value := .list ls' } := by
        rw [ItemOk, htype]
        exact ⟨run', hne, hlinked'⟩
      obtain ⟨hok, hstored⟩ := set_value_storeOk h hold hitem'
      exact ⟨hok, hstored.typedAt hok⟩
  · obtain ⟨ls', run', hpush, hne, hlinked', _⟩ := list_push_spec list_init_linked dir value
    simp only [hpush, ok_bind]
    exact (htable_insert_storeOk h habsent .LIST_T (.list ls') ⟨run', hne, hlinked'⟩).bind
      (fun ht' hr => hr)

theorem htable_sadd_storeOk (h : StoreOk mc ht) (htyped : TypedAt ht key .SET_T) (value : CStr) :
    Ensures (IndexFault mc) (htable_sadd mc ht key value)
      (fun r => StoreOk mc r.1 ∧ TypedAt r.1 key .SET_T) := by
  refine exists_or_insert h ?_ (fun habsent => ?_)
  · refine (htable_search_typed h htyped).bind ?_
    intro r hr
    cases r with
    | none => exact ⟨h, htyped⟩
    | some found =>
      obtain ⟨hold, hitem, htype⟩ := hr
      obtain ⟨st, hvalue, ops, hrun⟩ := hitem.set htype
      simp only [hvalue, Value.asSet, ok_bind]
      refine (set_add_spec (set_run_setOk hrun) value).bind_eq ?_
      intro r hadd _
      have hitem' := hitem.set_step hvalue (.add value) (by rw [SetOp.step, hadd]; rfl)
      obtain ⟨hok, hstored⟩ := set_value_storeOk h hold hitem'
      exact ⟨hok, hstored.typedAt hok⟩
  · refine (set_add_spec (set_init_ok mc (fun _ => by decide)) value).bind_eq ?_
    intro r hadd _
    have hempty : ItemOk mc ⟨.SET_T, key, .set (set_init HT_BASE_SIZE)⟩ := ⟨[], rfl⟩
    have hitem := hempty.set_step rfl (.add value) (by rw [SetOp.step, hadd]; rfl)
    exact (htable_insert_storeOk h habsent .SET_T (.set r.1) hitem).bind (fun ht' hr => hr)

/-! ## Removals from a container -/

/-- A removal of a field: the key goes with the last field counted. -/
theorem htable_hdel_spec (h : StoreOk mc ht) (htyped : TypedAt ht key .HASH_T) (field : CStr) :
    Ensures (IndexFault mc) (htable_hdel mc ht key field) (fun r => StoreOk mc r.1 ∧
      ((Absent ht key ∧ r = (ht, false)) ∨ ∃ t t', Stored ht key (.hash t) ∧
        htable_del mc t field = .ok (t', r.2) ∧
        if t'.used = 0 then Absent r.1 key else Stored r.1 key (.hash t'))) := by
  refine (htable_search_typed h htyped).bind ?_
  intro r hr
  cases r with
  | none => exact ⟨h, Or.inl ⟨hr, rfl⟩⟩
  | some found =>
    obtain ⟨hold, hitem, htype⟩ := hr
    obtain ⟨t, hvalue, ops, hrun⟩ := hitem.hash htype
    simp only [hvalue, Value.asHash, ok_bind]
    refine (htable_del_hashOk (htable_run_hashOk hrun) field).bind_eq ?_
    intro r hdel _
    have hitem' := hitem.hash_step hvalue (.del field) (by rw [HashOp.step, hdel]; rfl)
    refine (drop_empty_storeOk h hold (.hash r.1) (r.1.used = 0) r.2 (fun _ => hitem')).mono ?_
    rintro r' ⟨hok, hres, hdropped⟩
    exact ⟨hok, Or.inr ⟨t, r.1, hold.stored hvalue, by rw [hdel, hres], hdropped⟩⟩

theorem htable_hdel_storeOk (h : StoreOk mc ht) (htyped : TypedAt ht key .HASH_T) (field : CStr) :
    Ensures (IndexFault mc) (htable_hdel mc ht key field)
      (fun r => StoreOk mc r.1 ∧ TypedAt r.1 key .HASH_T) := by
  refine (htable_hdel_spec h htyped field).mono ?_
  rintro r ⟨hok, ⟨habsent, rfl⟩ | ⟨t, t', _, _, hdropped⟩⟩
  · exact ⟨hok, htyped⟩
  · exact ⟨hok, typedAt_of_dropped hok hdropped⟩

theorem htable_srem_spec (h : StoreOk mc ht) (htyped : TypedAt ht key .SET_T) (value : CStr) :
    Ensures (IndexFault mc) (htable_srem mc ht key value) (fun r => StoreOk mc r.1 ∧
      ((Absent ht key ∧ r = (ht, false)) ∨ ∃ st st', Stored ht key (.set st) ∧
        set_rem mc st value = .ok (st', r.2) ∧
        if st'.used = 0 then Absent r.1 key else Stored r.1 key (.set st'))) := by
  refine (htable_search_typed h htyped).bind ?_
  intro r hr
  cases r with
  | none => exact ⟨h, Or.inl ⟨hr, rfl⟩⟩
  | some found =>
    obtain ⟨hold, hitem, htype⟩ := hr
    obtain ⟨st, hvalue, ops, hrun⟩ := hitem.set htype
    simp only [hvalue, Value.asSet, ok_bind]
    refine (set_rem_spec (set_run_setOk hrun) value).bind_eq ?_
    intro r hrem _
    have hitem' := hitem.set_step hvalue (.rem value) (by rw [SetOp.step, hrem]; rfl)
    refine (drop_empty_storeOk h hold (.set r.1) (r.1.used = 0) r.2 (fun _ => hitem')).mono ?_
    rintro r' ⟨hok, hres, hdropped⟩
    exact ⟨hok, Or.inr ⟨st, r.1, hold.stored hvalue, by rw [hrem, hres], hdropped⟩⟩

theorem htable_srem_storeOk (h : StoreOk mc ht) (htyped : TypedAt ht key .SET_T) (value : CStr) :
    Ensures (IndexFault mc) (htable_srem mc ht key value)
      (fun r => StoreOk mc r.1 ∧ TypedAt r.1 key .SET_T) := by
  refine (htable_srem_spec h htyped value).mono ?_
  rintro r ⟨hok, ⟨habsent, rfl⟩ | ⟨st, st', _, _, hdropped⟩⟩
  · exact ⟨hok, htyped⟩
  · exact ⟨hok, typedAt_of_dropped hok hdropped⟩

theorem list_pop_spec {ls : CList} {run : List (Nat × CStr)} (h : ls.Linked run) (hne : run ≠ [])
    (dir : ListDirection) :
    ∃ value ls' run', list_pop dir ls = .ok (some ⟨value, none, none⟩, ls') ∧ ls'.Linked run' ∧
      run.map Prod.snd = match dir with
        | .LEFT => value :: run'.map Prod.snd
        | .RIGHT => run'.map Prod.snd ++ [value] := by
  cases dir with
  | LEFT =>
    obtain ⟨node, run, rfl⟩ := List.exists_cons_of_ne_nil hne
    obtain ⟨ls', hpop, hlinked⟩ := list_lpop_spec h
    exact ⟨node.2, ls', run, hpop, hlinked, rfl⟩
  | RIGHT =>
    obtain ⟨run, node, rfl⟩ := (List.eq_nil_or_concat run).resolve_left hne
    rw [List.concat_eq_append] at h ⊢
    obtain ⟨ls', hpop, hlinked⟩ := list_rpop_spec h
    exact ⟨node.2, ls', run, hpop, hlinked, by simp⟩

/-- A list whose length is not zero is not empty. -/
theorem CList.Linked.ne_nil {ls : CList} {run : List (Nat × CStr)} (h : ls.Linked run) (hlen : ¬ ls.len = 0) :
    run ≠ [] := by
  rintro rfl
  exact hlen h.len

/-- A sequence with one more value at an end. -/
def ListDirection.put (dir : ListDirection) (value : CStr) (values : List CStr) : List CStr :=
  match dir with
  | .LEFT => value :: values
  | .RIGHT => values ++ [value]

/-- A pop takes the value at its end; the key goes with the last one. -/
theorem htable_pop_spec (h : StoreOk mc ht) (htyped : TypedAt ht key .LIST_T) (dir : ListDirection) :
    Ensures (IndexFault mc) (htable_pop mc ht key dir) (fun r => StoreOk mc r.1 ∧
      ((Absent ht key ∧ r = (ht, none)) ∨ ∃ ls ls' value rest, Stored ht key (.list ls) ∧
        ls.Represents (dir.put value rest) ∧ ls'.Represents rest ∧ r.2 = some value ∧
        if ls'.len = 0 then Absent r.1 key else Stored r.1 key (.list ls'))) := by
  refine (htable_search_typed h htyped).bind ?_
  intro r hr
  cases r with
  | none => exact ⟨h, Or.inl ⟨hr, rfl⟩⟩
  | some found =>
    obtain ⟨hold, hitem, htype⟩ := hr
    obtain ⟨ls, hvalue, run, hne, hlinked⟩ := hitem.list htype
    obtain ⟨value, ls', run', hpop, hlinked', hvalues⟩ := list_pop_spec hlinked hne dir
    simp only [hvalue, Value.asList, ok_bind, hpop]
    have hitem' : ¬ ls'.len = 0 → ItemOk mc { found.2 with value := .list ls' } := by
      intro hlen
      rw [ItemOk, htype]
      exact ⟨run', hlinked'.ne_nil hlen, hlinked'⟩
    refine (drop_empty_storeOk h hold (.list ls') (ls'.len = 0) (some value) hitem').mono ?_
    rintro r' ⟨hok, hres, hdropped⟩
    exact ⟨hok, Or.inr ⟨ls, ls', value, run'.map Prod.snd, hold.stored hvalue, ⟨run, hlinked, hvalues⟩,
      ⟨run', hlinked', rfl⟩, hres, hdropped⟩⟩

theorem htable_pop_storeOk (h : StoreOk mc ht) (htyped : TypedAt ht key .LIST_T) (dir : ListDirection) :
    Ensures (IndexFault mc) (htable_pop mc ht key dir)
      (fun r => StoreOk mc r.1 ∧ TypedAt r.1 key .LIST_T) := by
  refine (htable_pop_spec h htyped dir).mono ?_
  rintro r ⟨hok, ⟨_, rfl⟩ | ⟨ls, ls', value, rest, _, _, _, _, hdropped⟩⟩
  · exact ⟨hok, htyped⟩
  · exact ⟨hok, typedAt_of_dropped hok hdropped⟩

/-- A removal by value; again the key goes with the last element. -/
theorem htable_lrem_spec (h : StoreOk mc ht) (htyped : TypedAt ht key .LIST_T) (count : Int)
    (value : CStr) :
    Ensures (IndexFault mc) (htable_lrem mc ht key count value) (fun r => StoreOk mc r.1 ∧
      ((Absent ht key ∧ r = (ht, 0)) ∨ ∃ ls ls' values, Stored ht key (.list ls) ∧ ls.Represents values ∧
        ls'.Represents (kept count value values) ∧ r.2 = deleted count value values ∧
        if ls'.len = 0 then Absent r.1 key else Stored r.1 key (.list ls'))) := by
  refine (htable_search_typed h htyped).bind ?_
  intro r hr
  cases r with
  | none => exact ⟨h, Or.inl ⟨hr, rfl⟩⟩
  | some found =>
    obtain ⟨hold, hitem, htype⟩ := hr
    obtain ⟨ls, hvalue, run, _, hlinked⟩ := hitem.list htype
    obtain ⟨ls', hrem, run', hlinked', hvalues⟩ := list_rem_kept hlinked count value
    simp only [hvalue, Value.asList, ok_bind, hrem]
    have hitem' : ¬ ls'.len = 0 → ItemOk mc { found.2 with value := .list ls' } := by
      intro hlen
      rw [ItemOk, htype]
      exact ⟨run', hlinked'.ne_nil hlen, hlinked'⟩
    refine (drop_empty_storeOk h hold (.list ls') (ls'.len = 0) _ hitem').mono ?_
    rintro r' ⟨hok, hres, hdropped⟩
    exact ⟨hok, Or.inr ⟨ls, ls', run.map Prod.snd, hold.stored hvalue, ⟨run, hlinked, rfl⟩,
      ⟨run', hlinked', hvalues⟩, hres, hdropped⟩⟩

theorem htable_lrem_storeOk (h : StoreOk mc ht) (htyped : TypedAt ht key .LIST_T) (count : Int)
    (value : CStr) :
    Ensures (IndexFault mc) (htable_lrem mc ht key count value)
      (fun r => StoreOk mc r.1 ∧ TypedAt r.1 key .LIST_T) := by
  refine (htable_lrem_spec h htyped count value).mono ?_
  rintro r ⟨hok, ⟨_, rfl⟩ | ⟨ls, ls', values, _, _, _, _, hdropped⟩⟩
  · exact ⟨hok, htyped⟩
  · exact ⟨hok, typedAt_of_dropped hok hdropped⟩

/-- A write at an index, which past the end does nothing. -/
theorem htable_lset_spec (h : StoreOk mc ht) (htyped : TypedAt ht key .LIST_T) (id : Int) (value : CStr) :
    Ensures (Missed mc ht key) (htable_lset mc ht key id value) (fun r => StoreOk mc r.1 ∧
      ((Absent ht key ∧ r = (ht, false)) ∨ ∃ ls ls' values, Stored ht key (.list ls) ∧ ls.Represents values ∧
        ls'.Represents (values.set id.toNat value) ∧ r.2 = decide (id.toNat < values.length) ∧
        Stored r.1 key (.list ls'))) := by
  refine (htable_search_typed_missed h htyped).bind ?_
  intro r hr
  cases r with
  | none => exact ⟨h, Or.inl ⟨hr, rfl⟩⟩
  | some found =>
    obtain ⟨hold, hitem, htype⟩ := hr
    obtain ⟨ls, hvalue, run, hne, hlinked⟩ := hitem.list htype
    obtain ⟨ls', hset, run', hlinked', hvalues⟩ := list_set_spec hlinked id value
    simp only [hvalue, Value.asList, ok_bind, hset]
    have hitem' : ItemOk mc { found.2 with value := .list ls' } := by
      rw [ItemOk, htype]
      refine ⟨run', ?_, hlinked'⟩
      rintro rfl
      have hlen := congrArg List.length hvalues
      rw [List.length_set, List.length_map, List.length_map] at hlen
      exact hne (List.length_eq_zero_iff.mp hlen.symm)
    obtain ⟨hok, hstored⟩ := set_value_storeOk h hold hitem'
    exact ⟨hok, Or.inr ⟨ls, ls', run.map Prod.snd, hold.stored hvalue, ⟨run, hlinked, rfl⟩,
      ⟨run', hlinked', hvalues⟩, by rw [List.length_map], hstored⟩⟩

theorem htable_lset_storeOk (h : StoreOk mc ht) (htyped : TypedAt ht key .LIST_T) (id : Int) (value : CStr) :
    Ensures (IndexFault mc) (htable_lset mc ht key id value)
      (fun r => StoreOk mc r.1 ∧ TypedAt r.1 key .LIST_T) := by
  refine (ensures_of_missed (htable_lset_spec h htyped id value)).mono ?_
  rintro r ⟨hok, ⟨_, rfl⟩ | ⟨ls, ls', values, _, _, _, _, hstored⟩⟩
  · exact ⟨hok, htyped⟩
  · exact ⟨hok, hstored.typedAt hok⟩

end hyperkv
