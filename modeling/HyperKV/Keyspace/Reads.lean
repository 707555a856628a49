import HyperKV.Keyspace.Containers

open Outcome OpenAddressing

namespace hyperkv

variable {mc : Machine} {ht : HashTable} {key : CStr} {db : Keyspace} (hm : Means mc ht db)
include hm

/-! ## Keys and strings -/

theorem htable_exists_means :
    Ensures (IndexFault mc) (htable_exists mc ht key) (fun b => b = (db key).isSome) := by
  refine (htable_exists_spec hm.ok.table key).mono (fun b hb => Bool.eq_iff_iff.mpr (hb.trans ?_))
  cases hd : db key with
  | none =>
    have hkey := hm.keys key
    rw [hd] at hkey
    refine iff_of_false ?_ Bool.false_ne_true
    rintro ⟨item, hmem, hitem⟩
    exact hkey item hmem hitem
  | some d =>
    have hkey := hm.keys key
    rw [hd] at hkey
    obtain ⟨value, ⟨item, hmem, hitem, _⟩, _⟩ := hkey
    exact iff_of_true ⟨item, hmem, hitem⟩ rfl

theorem htable_type_means : Ensures (IndexFault mc) (htable_type mc ht key)
    (fun name => name = match db key with | none => cstr "none" | some d => d.type.name) := by
  refine (htable_search_spec hm.ok.table key).bind ?_
  intro r hr
  cases r with
  | none =>
    rw [hm.absent hr]
    exact rfl
  | some found =>
    obtain ⟨d, hd, hmeans⟩ := hm.stored (hr.stored rfl)
    rw [hd]
    change found.2.type.name = d.type.name
    rw [← hmeans.type_eq, (hm.ok.items _ hr.mem).type_eq]

theorem Means.text_at {str : Option CStr} (h : StringAt ht key str) : str = Datum.text (db key) := by
  cases str with
  | none => rw [hm.absent h]; rfl
  | some s => rw [hm.string_at h]; rfl

theorem htable_get_means (htyped : TypedAt ht key .STR_T) :
    Ensures (IndexFault mc) (htable_get mc ht key) (fun r => r = Datum.text (db key)) :=
  ensures_of_missed ((htable_get_spec hm.ok htyped).mono fun _ => hm.text_at)

/-! ## Hashes -/

theorem htable_hget_means (htyped : TypedAt ht key .HASH_T) (field : CStr) :
    Ensures (IndexFault mc) (htable_hget mc ht key field)
      (fun r => r = (Datum.bindings (db key)).lookup field) := by
  refine (htable_hget_spec hm.ok htyped field).mono ?_
  rintro r (⟨habsent, rfl⟩ | ⟨t, hstored, hstr⟩)
  · rw [hm.absent habsent]
    change none = (∅ : Bindings).lookup field
    rw [Finmap.lookup_empty]
  · obtain ⟨m, hd, hmeans, _⟩ := hm.hash_at hstored
    rw [hd]
    change r = m.lookup field
    cases hlookup : m.lookup field with
    | none =>
      cases r with
      | none => rfl
      | some s =>
        obtain ⟨item, hmem, rfl, _⟩ := hstr
        obtain ⟨value, hvalue, _⟩ := (hmeans.mem_iff item).mp hmem
        rw [hlookup] at hvalue
        cases hvalue
    | some value =>
      have hitem := (hmeans.mem_iff ⟨.STR_T, field, .str value⟩).mpr ⟨value, hlookup, rfl⟩
      have hsome : StringAt t field (some value) := ⟨_, hitem, rfl, rfl⟩
      exact hstr.unique hsome (hstored.hashOk hm.ok).storeOk

theorem htable_hlen_means (htyped : TypedAt ht key .HASH_T) :
    Ensures (IndexFault mc) (htable_hlen mc ht key)
      (fun n => n = (Datum.bindings (db key)).keys.card) := by
  refine (htable_hlen_spec hm.ok htyped).mono ?_
  rintro n (⟨habsent, rfl⟩ | ⟨t, hstored, rfl⟩)
  · rw [hm.absent habsent]
    rfl
  · obtain ⟨m, hd, hmeans, _⟩ := hm.hash_at hstored
    rw [hd]
    exact hmeans.used (hstored.hashOk hm.ok)

theorem htable_hgetall_means (htyped : TypedAt ht key .HASH_T) :
    Ensures (IndexFault mc) (htable_hgetall mc ht key) (fun r => ∃ l : List (CStr × CStr),
      (l : Multiset (CStr × CStr)) = (Datum.bindings (db key)).entries.map (fun b => (b.1, b.2)) ∧
        r.getD [] = l.flatMap fun b => [b.1, b.2]) := by
  refine (htable_hgetall_spec hm.ok htyped).mono ?_
  rintro r (⟨habsent, rfl⟩ | ⟨t, hstored, hlisted⟩)
  · rw [hm.absent habsent]
    exact ⟨[], rfl, rfl⟩
  · obtain ⟨m, hd, hmeans, _⟩ := hm.hash_at hstored
    rw [hd, hlisted.counted hmeans.counted]
    exact ⟨_, hmeans.entries (hstored.hashOk hm.ok), by rw [List.flatMap_map]; rfl⟩

/-- The fields, or their values, in some order. -/
theorem htable_hkeyvals_means (htyped : TypedAt ht key .HASH_T) (ky : Bool) :
    Ensures (IndexFault mc) (htable_hkeyvals mc ht key ky)
      (fun r => ((r.getD [] : List CStr) : Multiset CStr) =
      (Datum.bindings (db key)).entries.map (fun b => if ky then b.1 else b.2)) := by
  refine (htable_hkeyvals_spec hm.ok htyped ky).mono ?_
  rintro r (⟨habsent, rfl⟩ | ⟨t, hstored, hlisted⟩)
  · rw [hm.absent habsent]
    rfl
  · obtain ⟨m, hd, hmeans, _⟩ := hm.hash_at hstored
    have hentries := congrArg (Multiset.map fun b : CStr × CStr => if ky then b.1 else b.2)
      (hmeans.entries (hstored.hashOk hm.ok))
    rw [Multiset.map_map, Multiset.map_coe, List.map_map] at hentries
    rw [hd, hlisted.counted hmeans.counted]
    refine Eq.trans ?_ hentries
    rw [Option.getD_some, List.map_eq_flatMap]
    cases ky <;> rfl

/-! ## Lists -/

/-- What the specifications say of a typed key's list, in terms of the key space. -/
theorem Means.values_cases {P : Prop} {Q : List CStr → Prop}
    (h : (Absent ht key ∧ P) ∨ ∃ values, StoredList ht key values ∧ Q values) :
    (db key = none ∧ P) ∨ ∃ values, db key = some (.list values) ∧ values ≠ [] ∧
      StoredList ht key values ∧
      Q values := by
  rcases h with ⟨habsent, hP⟩ | ⟨values, hstored, hQ⟩
  · exact Or.inl ⟨hm.absent habsent, hP⟩
  · have hne : values ≠ [] := by
      obtain ⟨_, _, _, hne⟩ := hstored
      exact hne
    exact Or.inr ⟨values, hm.list_at hstored, hne, hstored, hQ⟩

theorem htable_llen_means (htyped : TypedAt ht key .LIST_T) :
    Ensures (IndexFault mc) (htable_llen mc ht key) (fun n => n = (Datum.values (db key)).length) := by
  refine ensures_of_missed ((htable_llen_spec hm.ok htyped).mono ?_)
  intro n hn
  rcases hm.values_cases hn with ⟨hd, rfl⟩ | ⟨values, hd, _, _, rfl⟩ <;> rw [hd] <;> rfl

theorem htable_lpos_means (htyped : TypedAt ht key .LIST_T) (value : CStr) :
    Ensures (IndexFault mc) (htable_lpos mc ht key value) (fun n =>
      n = if value ∈ Datum.values (db key) then ((Datum.values (db key)).idxOf value : Int) else -1) := by
  refine ensures_of_missed ((htable_lpos_spec hm.ok htyped value).mono ?_)
  intro n hn
  rcases hm.values_cases hn with ⟨hd, rfl⟩ | ⟨values, hd, _, _, rfl⟩ <;> rw [hd] <;> rfl

/-! ## Sets -/

theorem htable_sismember_means (htyped : TypedAt ht key .SET_T) (value : CStr) :
    Ensures (IndexFault mc) (htable_sismember mc ht key value)
      (fun b => b = decide (value ∈ Datum.members (db key))) := by
  refine (htable_sismember_spec hm.ok htyped value).mono ?_
  rintro b (⟨habsent, rfl⟩ | ⟨st, hstored, hb⟩)
  · rw [hm.absent habsent]
    rfl
  · obtain ⟨s, hd, hmeans, _⟩ := hm.set_at hstored
    rw [hd]
    exact Bool.eq_iff_iff.mpr (hb.trans ((hmeans.mem value).trans decide_eq_true_iff.symm))

theorem htable_smembers_means (htyped : TypedAt ht key .SET_T) :
    Ensures (IndexFault mc) (htable_smembers mc ht key)
      (fun r => ((r.getD [] : List CStr) : Multiset CStr) = (Datum.members (db key)).val) := by
  refine (htable_smembers_spec hm.ok htyped).mono ?_
  rintro r (⟨habsent, rfl⟩ | ⟨st, hstored, rfl⟩)
  · rw [hm.absent habsent]
    rfl
  · obtain ⟨s, hd, hmeans, _⟩ := hm.set_at hstored
    rw [hd]
    exact (Multiset.Nodup.ext (Multiset.coe_nodup.mpr hmeans.nodup) s.nodup).mpr
      (fun x => Multiset.mem_coe.trans (hmeans.mem x))

end hyperkv
