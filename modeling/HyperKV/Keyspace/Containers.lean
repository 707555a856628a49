import HyperKV.Keyspace.Means
import HyperKV.OpenAddressing.Sound
import HyperKV.Set.Kept

open Outcome OpenAddressing

namespace hyperkv

variable {mc : Machine}

/-! ## Nested hashes -/

section Hash

variable {t : HashTable} {m : Bindings} {field : CStr}

/-- A hash that stands for bindings is sound as a table, its counter included. -/
theorem HashOk.sound (h : HashOk mc t) (hm : HashMeans t m) : (htable_scheme mc).Sound (Sized mc) t :=
  ⟨h.table.findable, h.table.distinct, h.table.sized, hm.counted⟩

/-- The items of the table are the bindings, as strings. -/
theorem HashMeans.mem_iff (hm : HashMeans t m) (item : HashTableItem Value) :
    item ∈ t.items ↔ ∃ value, m.lookup item.key = some value ∧ item = ⟨.STR_T, item.key, .str value⟩ :=
  hm.refines item

/-- The pairs that the table lists are the bindings, each once. -/
theorem HashMeans.entries (hok : HashOk mc t) (hm : HashMeans t m) :
    ((t.items.map fun item => (item.key, item_text item) : List (CStr × CStr)) : Multiset (CStr × CStr)) =
      m.entries.map (fun b => (b.1, b.2)) := by
  have hkeys : (t.items.map HashTableItem.key).Nodup := hok.table.distinct
  have hnodup : (t.items.map fun item => (item.key, item_text item)).Nodup :=
    List.Nodup.of_map Prod.fst (by rwa [List.map_map])
  have hentries : (m.entries.map fun b => (b.1, b.2)).Nodup := by
    refine Multiset.Nodup.map ?_ m.nodup_entries
    rintro ⟨a, b⟩ ⟨a', b'⟩ h
    cases h
    rfl
  refine (Multiset.Nodup.ext (Multiset.coe_nodup.mpr hnodup) hentries).mpr ?_
  rintro ⟨k, v⟩
  rw [Multiset.mem_coe, List.mem_map, Multiset.mem_map]
  constructor
  · rintro ⟨item, hmem, heq⟩
    obtain ⟨value, hlookup, hitem⟩ := (hm.mem_iff item).mp hmem
    rw [hitem] at heq
    cases heq
    exact ⟨⟨item.key, value⟩, Finmap.lookup_eq_some_iff.mp hlookup, rfl⟩
  · rintro ⟨⟨a, b⟩, hmem, heq⟩
    cases heq
    refine ⟨⟨.STR_T, a, .str b⟩, (hm.mem_iff _).mpr ⟨b, Finmap.lookup_eq_some_iff.mpr hmem, rfl⟩, rfl⟩

/-- The counter that `HLEN` answers with is the number of bindings. -/
theorem HashMeans.used (hok : HashOk mc t) (hm : HashMeans t m) : t.used = m.keys.card := by
  have hcount : t.used = t.items.length := hm.counted
  have hcard := congrArg Multiset.card (hm.entries hok)
  rw [Multiset.card_map, Multiset.coe_card, List.length_map] at hcard
  rw [hcount, hcard]
  simp [Finmap.keys, Finset.card, Multiset.keys]

/-- The test by which an emptied hash is deleted. -/
theorem HashMeans.used_eq_zero (hok : HashOk mc t) (hm : HashMeans t m) : t.used = 0 ↔ m = ∅ := by
  rw [hm.used hok, Nat.cast_eq_zero, Finset.card_eq_zero]
  constructor
  · intro hkeys
    refine Finmap.ext_lookup (fun k => ?_)
    rw [Finmap.lookup_empty, Finmap.lookup_eq_none, ← Finmap.mem_keys, hkeys]
    exact Finset.notMem_empty k
  · rintro rfl
    rfl

theorem htable_init_hashMeans : HashMeans (htable_init HT_BASE_SIZE) ∅ :=
  ⟨by simpa only [Finmap.lookup_empty] using htable_init_refines HT_BASE_SIZE, Scheme.counted_empty _⟩

/-- Setting a field is a step of the map of strings. -/
theorem lookup_insert_eq (value : CStr) :
    (fun k => (m.insert field value).lookup k) =
      StrMap.step (fun k => m.lookup k) (.set field value) := by
  funext k
  change _ = if k = field then some value else m.lookup k
  by_cases hk : k = field
  · subst hk
    rw [Finmap.lookup_insert, if_pos rfl]
  · rw [Finmap.lookup_insert_of_ne m hk, if_neg hk]

/-- Deleting a field is a step of the map of strings. -/
theorem lookup_erase_eq :
    (fun k => (m.erase field).lookup k) = StrMap.step (fun k => m.lookup k) (.del field) := by
  funext k
  change _ = if k = field then none else m.lookup k
  by_cases hk : k = field
  · subst hk
    rw [Finmap.lookup_erase, if_pos rfl]
  · rw [Finmap.lookup_erase_ne hk, if_neg hk]

/-- A string that is to be inserted needs a slot. -/
theorem htable_lands_absent {value : CStr} (habsent : Absent t field)
    (hlands : htable_lands mc t (.set field value)) :
    (htable_scheme mc).lands 1 t ⟨.STR_T, field, .str value⟩ := by
  rcases Bool.or_eq_true_iff.mp hlands with hany | hspot
  · obtain ⟨item, hmem, hkey⟩ := List.any_eq_true.mp hany
    exact absurd (of_decide_eq_true hkey) (habsent item hmem)
  · exact hspot

/-- The insertion of a new field, where its slot is found. -/
theorem htable_insert_sound (h : (htable_scheme mc).Sound (Sized mc) t) {type : ItemType} {value : Value}
    (habsent : Absent t field) (hlands : (htable_scheme mc).lands 1 t ⟨type, field, value⟩) :
    Ensures (IndexFault mc) (htable_insert mc t type field value) (fun t' =>
      (htable_scheme mc).Sound (Sized mc) t' ∧
        ∀ item, item ∈ t'.items ↔ item = ⟨type, field, value⟩ ∨ item ∈ t.items) := by
  have hnew : ∀ item ∈ t.items,
      (htable_scheme mc).key item ≠ (htable_scheme mc).key ⟨type, field, value⟩ := habsent
  exact Ensures.map (fromTable_ensures
    ((h.insert (htable_lawful mc) 0 hnew hlands).mono (fun _ hr => hr.2)))

/-- A field that is there is overwritten in its place, and counts as set like a new
    one. -/
theorem htable_set_hashMeans (hok : HashOk mc t) (hm : HashMeans t m) {value : CStr}
    (hlands : htable_lands mc t (.set field value)) :
    Ensures (IndexFault mc) (htable_set mc t field value)
      (fun r => HashMeans r.1 (m.insert field value) ∧ r.2 = true) := by
  refine (htable_set_cases hok.table field value).mono ?_
  rintro ⟨t', done⟩ (⟨habsent, hdone, hinsert⟩ | ⟨p, item, hold, htype, _⟩ | ⟨p, item, hold, _, heq⟩)
  · have hspot := htable_lands_absent habsent hlands
    obtain ⟨hsound, hmem⟩ := (htable_insert_sound (hok.sound hm) habsent hspot).of_eq_ok hinsert
    refine ⟨⟨?_, hsound.counted⟩, hdone⟩
    rw [lookup_insert_eq]
    exact hm.refines.set (fun item => (hmem item).trans
      (or_congr_right (and_iff_left_of_imp (habsent item)).symm))
  · exact absurd (hok.typedAt field item hold.mem hold.key_eq) htype
  · cases heq
    obtain ⟨_, hmem⟩ := hok.table.replace ⟨.STR_T, field, .str value⟩ hold rfl
    refine ⟨⟨?_, hm.counted.replace hold.slot⟩, rfl⟩
    rw [lookup_insert_eq]
    exact hm.refines.set hmem

/-- A field that is not there changes nothing, and is not counted. -/
theorem htable_del_hashMeans (hok : HashOk mc t) (hm : HashMeans t m)
    (hlands : htable_lands mc t (.del field)) :
    Ensures (IndexFault mc) (htable_del mc t field)
      (fun r => HashMeans r.1 (m.erase field) ∧ r.2 = (m.lookup field).isSome) := by
  refine fromTable_ensures (((hok.sound hm).remove (htable_lawful mc) 0 hlands).mono ?_)
  rintro r ⟨hsound, hfound, hmem⟩
  refine ⟨⟨?_, hsound.counted⟩, Bool.eq_iff_iff.mpr (hfound.trans ?_)⟩
  · rw [lookup_erase_eq]
    exact hm.refines.del hmem
  · rw [Option.isSome_iff_exists]
    constructor
    · rintro ⟨item, hitem, rfl⟩
      obtain ⟨value, hvalue, _⟩ := (hm.mem_iff item).mp hitem
      exact ⟨value, hvalue⟩
    · rintro ⟨value, hvalue⟩
      exact ⟨⟨.STR_T, field, .str value⟩, (hm.mem_iff _).mpr ⟨value, hvalue, rfl⟩, rfl⟩

end Hash

/-! ## Sets -/

section Set

variable {st : CSet} {s : Finset CStr} {x : CStr}

theorem SetOk.sound (h : SetOk mc st) (hm : SetMeans st s) : (set_scheme mc).Sound (Sized mc) st :=
  ⟨h.findable, set_distinct_iff.mpr hm.nodup, h.sized, hm.counted⟩

/-- The counter of a set is the number of its members. -/
theorem SetMeans.used (hm : SetMeans st s) : st.used = s.card := by
  have hperm : (set_members st).Perm s.toList :=
    (List.perm_ext_iff_of_nodup hm.nodup s.nodup_toList).mpr
      (fun x => (hm.mem x).trans Finset.mem_toList.symm)
  have hcount : st.used = st.items.length := hm.counted
  rw [hcount, ← Finset.length_toList, ← hperm.length_eq]
  rfl

/-- The test by which an emptied set is deleted. -/
theorem SetMeans.used_eq_zero (hm : SetMeans st s) : st.used = 0 ↔ s = ∅ := by
  rw [hm.used, Nat.cast_eq_zero, Finset.card_eq_zero]

theorem set_init_setMeans : SetMeans (set_init HT_BASE_SIZE) ∅ := by
  have hnil : set_members (set_init HT_BASE_SIZE) = [] := Table.items_empty _
  refine ⟨fun x => ?_, ?_, Scheme.counted_empty _⟩
  · rw [hnil]
    exact iff_of_false List.not_mem_nil (Finset.notMem_empty x)
  · rw [hnil]
    exact List.nodup_nil

theorem setMeans_of_sound {st' : CSet} {s' : Finset CStr} (h : (set_scheme mc).Sound (Sized mc) st')
    (hmem : ∀ x, x ∈ set_members st' ↔ x ∈ s') : SetMeans st' s' :=
  ⟨hmem, set_distinct_iff.mp h.distinct, h.counted⟩

/-- An addition, where no tombstone stands ahead of a member and no slot is
    missing. -/
theorem set_add_setMeans (hok : SetOk mc st) (hm : SetMeans st s) (hlands : set_lands mc st (.add x))
    (hmeets : meets_no_tombstone mc st (.add x)) :
    Ensures (IndexFault mc) (set_add mc st x)
      (fun r => SetMeans r.1 (insert x s) ∧ r.2 = decide (x ∉ s)) := by
  by_cases hx : x ∈ s
  · refine (set_add_member hok hmeets ((hm.mem x).mpr hx)).mono ?_
    rintro r rfl
    rw [Finset.insert_eq_of_mem hx]
    exact ⟨hm, (decide_eq_false (not_not.mpr hx)).symm⟩
  · have habsent : ∀ y ∈ st.items, y ≠ x := by
      rintro y hy rfl
      exact hx ((hm.mem y).mp hy)
    refine fromTable_ensures (((hok.sound hm).insert (set_lawful mc) 0 habsent hlands).mono ?_)
    rintro r ⟨htaken, hsound, hmem⟩
    refine ⟨setMeans_of_sound hsound (fun y => ?_), htaken.trans (decide_eq_true hx).symm⟩
    rw [Finset.mem_insert, ← hm.mem y]
    exact hmem y

/-- A removal, where no re-insertion of a resize misses its slot. -/
theorem set_rem_setMeans (hok : SetOk mc st) (hm : SetMeans st s) (hlands : set_lands mc st (.rem x)) :
    Ensures (IndexFault mc) (set_rem mc st x)
      (fun r => SetMeans r.1 (s.erase x) ∧ r.2 = decide (x ∈ s)) := by
  refine fromTable_ensures (((hok.sound hm).remove (set_lawful mc) 0 hlands).mono ?_)
  rintro r ⟨hsound, hfound, hmem⟩
  refine ⟨setMeans_of_sound hsound (fun y => ?_), Bool.eq_iff_iff.mpr (hfound.trans ?_)⟩
  · rw [Finset.mem_erase, ← hm.mem y, and_comm]
    exact hmem y
  · rw [decide_eq_true_iff, ← hm.mem x]
    constructor
    · rintro ⟨y, hy, rfl⟩
      exact hy
    · exact fun hx => ⟨x, hx, rfl⟩

end Set

end hyperkv
