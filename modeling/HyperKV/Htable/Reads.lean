import HyperKV.Htable.Writes

open Outcome OpenAddressing DoublyLinked

namespace hyperkv

variable {mc : Machine} {ht : HashTable} {key : CStr}

/-! ## Types -/

theorem is_type_name (given expected : ItemType) :
    is_type given.name expected.name = true ↔ given = expected := by
  cases given <;> cases expected <;> decide

theorem is_type_none (expected : CStr) : is_type (cstr "none") expected = true := by
  simp [is_type]

/-- The type test lets a key pass exactly when it is missing or of the type. -/
theorem htable_type_spec (h : TableOk mc ht) (key : CStr) :
    Ensures (Missed mc ht key) (htable_type mc ht key)
      (fun name => ∀ expected : ItemType, is_type name expected.name = true ↔ TypedAt ht key expected) := by
  refine (htable_search_missed h key).bind ?_
  intro r hr
  cases r with
  | none => exact fun expected => iff_of_true (is_type_none _) (hr.typedAt expected)
  | some found =>
    refine fun expected => (is_type_name _ _).trans ⟨fun htype item hmem hkey => ?_, fun htyped => ?_⟩
    · rw [hr.unique h hmem hkey, htype]
    · exact htyped _ hr.mem hr.key_eq

/-! ## Strings and hashes -/

/-- The string under a key, or nil. -/
def StringAt (ht : HashTable) (key : CStr) : Option CStr → Prop
  | none => Absent ht key
  | some s => Stored ht key (.str s)

theorem StringAt.typedAt {str : Option CStr} (h : StringAt ht key str) (hok : StoreOk mc ht) :
    TypedAt ht key .STR_T := by
  cases str with
  | none => exact Absent.typedAt h _
  | some s => exact Stored.typedAt h hok

theorem StringAt.unique {str str' : Option CStr} (h : StringAt ht key str) (h' : StringAt ht key str')
    (hok : StoreOk mc ht) : str = str' := by
  cases str with
  | none =>
    cases str' with
    | none => rfl
    | some s' => exact absurd h (Stored.not_absent h')
  | some s =>
    cases str' with
    | none => exact absurd h' (Stored.not_absent h)
    | some s' =>
      cases Stored.unique hok.table h h'
      rfl

theorem htable_get_spec (h : StoreOk mc ht) (htyped : TypedAt ht key .STR_T) :
    Ensures (Missed mc ht key) (htable_get mc ht key) (StringAt ht key) := by
  refine (htable_search_typed_missed h htyped).bind ?_
  intro r hr
  cases r with
  | none => exact hr
  | some found =>
    obtain ⟨hold, hitem, htype⟩ := hr
    obtain ⟨s, hvalue⟩ := hitem.str htype
    simp only [hvalue, Machine.read_str, ok_bind]
    exact hold.stored hvalue

theorem htable_get_stringAt (h : StoreOk mc ht) {str : Option CStr} (hstr : StringAt ht key str) :
    Ensures (Missed mc ht key) (htable_get mc ht key) (fun r => r = str) :=
  (htable_get_spec h (hstr.typedAt h)).mono (fun _ hr => hr.unique hstr h)

theorem HashOk.storeOk (h : HashOk mc ht) : StoreOk mc ht := by
  refine ⟨h.table, fun item hmem => ?_⟩
  obtain ⟨value, heq⟩ := h.strings item hmem
  rw [heq]
  trivial

theorem HashOk.typedAt (h : HashOk mc ht) (key : CStr) : TypedAt ht key .STR_T := by
  intro item hmem _
  obtain ⟨value, heq⟩ := h.strings item hmem
  rw [heq]

/-- Reading the container behind a typed key. -/
private theorem read_ensures {α : Type} {read : HashTableItem Value → Exec α} {missing : α} {P : α → Prop}
    {tolerated : Fault → Prop} {type : ItemType} (hmissed : ∀ e, Missed mc ht key e → tolerated e)
    (h : StoreOk mc ht) (htyped : TypedAt ht key type) (hmissing : Absent ht key → P missing)
    (hread : ∀ p item, Holds ht key p item → ItemOk mc item → item.type = type →
      Ensures tolerated (read item) P) :
    Ensures tolerated (do match ← htable_search mc ht key with
      | none => return missing
      | some (_, item) => read item) P := by
  refine ((htable_search_typed_missed h htyped).tolerate hmissed).bind ?_
  intro r hr
  cases r with
  | none => exact hmissing hr
  | some found => exact hread _ _ hr.1 hr.2.1 hr.2.2

/-- Reading a field: nil for a missing key, else what the hash holds. -/
theorem htable_hget_spec (h : StoreOk mc ht) (htyped : TypedAt ht key .HASH_T) (field : CStr) :
    Ensures (IndexFault mc) (htable_hget mc ht key field) (fun r => (Absent ht key ∧ r = none) ∨
      ∃ t, Stored ht key (.hash t) ∧ StringAt t field r) := by
  refine read_ensures (fun _ => Missed.indexFault) h htyped (fun habsent => Or.inl ⟨habsent, rfl⟩) ?_
  intro p item hold hitem htype
  obtain ⟨t, hvalue, ops, hrun⟩ := hitem.hash htype
  have hhash := htable_run_hashOk hrun
  simp only [hvalue, Value.asHash, ok_bind]
  exact (ensures_of_missed (htable_get_spec hhash.storeOk (hhash.typedAt field))).mono
    (fun r hr => Or.inr ⟨t, hold.stored hvalue, hr⟩)

theorem htable_hget_stringAt (h : StoreOk mc ht) {t : HashTable} (hstored : Stored ht key (.hash t))
    {field : CStr} {str : Option CStr} (hstr : StringAt t field str) :
    Ensures (IndexFault mc) (htable_hget mc ht key field) (fun r => r = str) := by
  refine (htable_hget_spec h (hstored.typedAt h) field).mono ?_
  rintro r (⟨habsent, _⟩ | ⟨t', hstored', hr⟩)
  · exact absurd habsent hstored.not_absent
  · cases hstored.unique h.table hstored'
    exact hr.unique hstr (hstored.hashOk h).storeOk

theorem htable_hlen_spec (h : StoreOk mc ht) (htyped : TypedAt ht key .HASH_T) :
    Ensures (IndexFault mc) (htable_hlen mc ht key)
      (fun n => (Absent ht key ∧ n = 0) ∨ ∃ t, Stored ht key (.hash t) ∧ n = t.used) := by
  refine read_ensures (fun _ => Missed.indexFault) h htyped (fun habsent => Or.inl ⟨habsent, rfl⟩) ?_
  intro p item hold hitem htype
  obtain ⟨t, hvalue, _⟩ := hitem.hash htype
  simp only [hvalue, Value.asHash, ok_bind]
  exact Or.inr ⟨t, hold.stored hvalue, rfl⟩

/-! ## Listings -/

/-- The text of a field's value. -/
def item_text (item : HashTableItem Value) : CStr :=
  match item.value with
  | .str s => s
  | _ => []

theorem length_flatMap_of_width {texts : HashTableItem Value → List CStr} {width : Nat}
    (htexts : ∀ item, (texts item).length = width) (items : List (HashTableItem Value)) :
    (items.flatMap texts).length = width * items.length := by
  rw [List.length_flatMap, List.map_congr_left (fun item _ => htexts item), List.map_const',
    List.sum_replicate, smul_eq_mul, Nat.mul_comm]

/-- What a listing copies from an item that holds a string: texts of one width. -/
structure Copies (copy : HashTableItem Value → Exec (List CStr)) (texts : HashTableItem Value → List CStr)
    (width : Nat) : Prop where
  pos : 0 < width
  length : ∀ item, (texts item).length = width
  copy_eq : ∀ item s, item.value = .str s → copy item = .ok (texts item)

theorem copies_pair : Copies (copy_pair mc) (fun item => [item.key, item_text item]) 2 := by
  refine ⟨by decide, fun _ => rfl, fun item s hs => ?_⟩
  simp only [copy_pair, hs, Machine.read_str, item_text]
  rfl

theorem copies_side (ky : Bool) : Copies (copy_side mc ky)
    (fun item => [if ky then item.key else item_text item]) 1 := by
  refine ⟨by decide, fun _ => rfl, fun item s hs => ?_⟩
  cases ky with
  | true => rfl
  | false =>
    simp only [copy_side, hs, Machine.read_str, item_text]
    rfl

section Loops

variable {copy : HashTableItem Value → Exec (List CStr)} {texts : HashTableItem Value → List CStr}
  {width : Nat} (hcopies : Copies copy texts width)

include hcopies

/-- As many texts are copied as are announced exactly when enough items are. -/
theorem Copies.done_iff (items : List (HashTableItem Value)) (n : Int) :
    ((items.flatMap texts).length : Int) = width * n ↔ (items.length : Int) = n := by
  have hwidth : (width : Int) ≠ 0 := by exact_mod_cast hcopies.pos.ne'
  rw [length_flatMap_of_width hcopies.length, Nat.cast_mul]
  exact mul_right_inj' hwidth

theorem Copies.slot {slot : Slot (HashTableItem Value)}
    (hstring : ∀ item ∈ slot.item?.toList, ∃ s, item.value = .str s) :
    copy_slot copy slot = .ok (slot.item?.toList.flatMap texts) := by
  cases slot with
  | live item =>
    obtain ⟨s, hs⟩ := hstring item List.mem_cons_self
    rw [copy_slot, hcopies.copy_eq item s hs]
    exact congrArg Except.ok (List.append_nil _).symm
  | _ => rfl

/-- A listing answers the texts of the items that a walk over the slots ends with. -/
theorem hash_listing_eq (n : Int) (slots : List (Slot (HashTableItem Value)))
    (met : List (HashTableItem Value))
    (hstrings : ∀ item ∈ slots.filterMap Slot.item?, ∃ s, item.value = .str s) :
    hash_listing copy (width * n) slots (met.flatMap texts) =
      .ok ((Table.walk n slots met).map (·.flatMap texts)) := by
  induction slots generalizing met with
  | nil => rfl
  | cons slot rest ih =>
    rw [Table.filterMap_item?_cons] at hstrings
    have hslot := hcopies.slot (fun item hmem => hstrings item (List.mem_append_left _ hmem))
    have hdone := hcopies.done_iff (met ++ slot.item?.toList) n
    rw [hash_listing, hslot, ok_bind, ← List.flatMap_append, Table.walk]
    by_cases hmet : ((met ++ slot.item?.toList).length : Int) = n
    · rw [if_pos hmet]
      exact if_pos (hdone.mpr hmet)
    · rw [if_neg hmet]
      refine (if_neg (fun h => hmet (hdone.mp h))).trans (ih _ (fun item hmem => ?_))
      exact hstrings item (List.mem_append_right _ hmem)

theorem hash_listing_walk {t : HashTable} (h : HashOk mc t) {announced : Int}
    (hannounced : announced = width * t.used) :
    hash_listing copy announced t.slots [] = .ok ((Table.walk t.used t.slots []).map (·.flatMap texts)) := by
  rw [hannounced]
  refine hash_listing_eq hcopies t.used t.slots [] (fun item hmem => ?_)
  obtain ⟨s, heq⟩ := h.strings item hmem
  exact ⟨s, by rw [heq]⟩

end Loops

/-- What a listing of a hash answers: the first strings in slot order, as many as
    the counter announces, and all of them when it is exact. -/
structure Listed (t : HashTable) (width : Nat) (texts : HashTableItem Value → List CStr)
    (r : Option (List CStr)) : Prop where
  shown : ∀ l, r = some l → (l.length : Int) = width * t.used ∧ l <+: t.items.flatMap texts
  counted : Scheme.Counted t → r = some (t.items.flatMap texts)

theorem hash_listing_listed {t : HashTable} (h : HashOk mc t) {copy : HashTableItem Value → Exec (List CStr)}
    {texts : HashTableItem Value → List CStr} {width : Nat} (hcopies : Copies copy texts width)
    {announced : Int} (hannounced : announced = width * t.used) :
    Ensures (IndexFault mc) (hash_listing copy announced t.slots []) (Listed t width texts) := by
  rw [hash_listing_walk hcopies h hannounced]
  constructor
  · intro l hl
    obtain ⟨met, hmet, rfl⟩ := Option.map_eq_some_iff.mp hl
    obtain ⟨hlen, rest, hrest⟩ := Table.walk_eq_some hmet
    refine ⟨?_, rest.flatMap texts, ?_⟩
    · rw [length_flatMap_of_width hcopies.length, Nat.cast_mul, hlen]
    · rw [← List.flatMap_append, hrest]
      rfl
  · intro hcount
    have hslots : t.slots ≠ [] := by
      intro hnil
      have hpos := h.table.sized.1
      rw [Table.size, hnil] at hpos
      exact absurd hpos (Nat.lt_irrefl 0)
    rw [Table.walk_all hslots [] hcount]
    rfl

/-- A listing is complete exactly when the counter is exact, or nothing is there
    to list; otherwise it is too short. -/
theorem Listed.complete_iff {t : HashTable} {width : Nat} {texts : HashTableItem Value → List CStr}
    {r : Option (List CStr)} (h : Listed t width texts r) (hwidth : 0 < width)
    (htexts : ∀ item, (texts item).length = width) :
    r.getD [] = t.items.flatMap texts ↔ Scheme.Counted t ∨ t.items = [] := by
  have hlen := length_flatMap_of_width htexts t.items
  constructor
  · intro heq
    cases r with
    | none =>
      rw [← heq] at hlen
      exact Or.inr (List.length_eq_zero_iff.mp ((Nat.mul_eq_zero.mp hlen.symm).resolve_left hwidth.ne'))
    | some l =>
      have hused := (h.shown l rfl).1
      rw [show l = t.items.flatMap texts from heq, hlen, Nat.cast_mul] at hused
      exact Or.inl (mul_left_cancel₀ (by exact_mod_cast hwidth.ne') hused).symm
  · rintro (hcount | hnil)
    · rw [h.counted hcount]
      rfl
    · cases r with
      | none => rw [hnil]; rfl
      | some l =>
        have hshown := (h.shown l rfl).2
        rw [hnil] at hshown ⊢
        exact List.prefix_nil.mp hshown

theorem Listed.eq_of_length {t : HashTable} {width : Nat} {texts : HashTableItem Value → List CStr}
    {r : Option (List CStr)} (h : Listed t width texts r)
    (hlen : (r.getD []).length = (t.items.flatMap texts).length) : r.getD [] = t.items.flatMap texts := by
  cases r with
  | none => exact (List.length_eq_zero_iff.mp hlen.symm).symm
  | some l => exact (h.shown l rfl).2.eq_of_length hlen

theorem htable_hgetall_spec (h : StoreOk mc ht) (htyped : TypedAt ht key .HASH_T) :
    Ensures (IndexFault mc) (htable_hgetall mc ht key) (fun r => (Absent ht key ∧ r = none) ∨
      ∃ t, Stored ht key (.hash t) ∧ Listed t 2 (fun item => [item.key, item_text item]) r) := by
  refine read_ensures (fun _ => Missed.indexFault) h htyped (fun habsent => Or.inl ⟨habsent, rfl⟩) ?_
  intro p item hold hitem htype
  obtain ⟨t, hvalue, ops, hrun⟩ := hitem.hash htype
  simp only [hvalue, Value.asHash, ok_bind]
  exact (hash_listing_listed (htable_run_hashOk hrun) copies_pair (Int.mul_comm _ _)).mono
    (fun r hr => Or.inr ⟨t, hold.stored hvalue, hr⟩)

theorem htable_hkeyvals_spec (h : StoreOk mc ht) (htyped : TypedAt ht key .HASH_T) (ky : Bool) :
    Ensures (IndexFault mc) (htable_hkeyvals mc ht key ky) (fun r => (Absent ht key ∧ r = none) ∨
      ∃ t, Stored ht key (.hash t) ∧
        Listed t 1 (fun item => [if ky then item.key else item_text item]) r) := by
  refine read_ensures (fun _ => Missed.indexFault) h htyped (fun habsent => Or.inl ⟨habsent, rfl⟩) ?_
  intro p item hold hitem htype
  obtain ⟨t, hvalue, ops, hrun⟩ := hitem.hash htype
  simp only [hvalue, Value.asHash, ok_bind]
  exact (hash_listing_listed (htable_run_hashOk hrun) (copies_side ky) (Int.one_mul _).symm).mono
    (fun r hr => Or.inr ⟨t, hold.stored hvalue, hr⟩)

/-! ## Lists -/

/-- The key holds a list that stands for these values. -/
def StoredList (ht : HashTable) (key : CStr) (values : List CStr) : Prop :=
  ∃ ls, Stored ht key (.list ls) ∧ ls.Represents values ∧ values ≠ []

theorem StoredList.unique (hok : TableOk mc ht) {values values' : List CStr} (h : StoredList ht key values)
    (h' : StoredList ht key values') : values = values' := by
  obtain ⟨ls, hstored, ⟨run, hlinked, rfl⟩, _⟩ := h
  obtain ⟨ls', hstored', ⟨run', hlinked', rfl⟩, _⟩ := h'
  cases hstored.unique hok hstored'
  exact hlinked.values_eq hlinked'

theorem StoredList.typedAt {values : List CStr} (h : StoredList ht key values) (hok : StoreOk mc ht) :
    TypedAt ht key .LIST_T := by
  obtain ⟨ls, hls, _⟩ := h
  exact hls.typedAt hok

theorem StoredList.not_absent {values : List CStr} (h : StoredList ht key values) : ¬ Absent ht key := by
  obtain ⟨ls, hls, _⟩ := h
  exact hls.not_absent

/-- Reading the list behind a typed key. -/
private theorem read_list {α : Type} (read : CList → Exec α) {missing : α} {P : α → Prop}
    (h : StoreOk mc ht) (htyped : TypedAt ht key .LIST_T) (hmissing : Absent ht key → P missing)
    (hread : ∀ ls run, ls.Linked run → StoredList ht key (run.map Prod.snd) →
      Ensures (Missed mc ht key) (read ls) P) :
    Ensures (Missed mc ht key) (do match ← htable_search mc ht key with
      | none => return missing
      | some (_, item) => do read (← item.value.asList)) P := by
  refine read_ensures (fun _ => id) h htyped hmissing ?_
  intro p item hold hitem htype
  obtain ⟨ls, hvalue, run, hne, hlinked⟩ := hitem.list htype
  simp only [hvalue, Value.asList, ok_bind]
  exact hread ls run hlinked
    ⟨ls, hold.stored hvalue, ⟨run, hlinked, rfl⟩, fun hnil => hne (List.map_eq_nil_iff.mp hnil)⟩

theorem htable_llen_spec (h : StoreOk mc ht) (htyped : TypedAt ht key .LIST_T) :
    Ensures (Missed mc ht key) (htable_llen mc ht key) (fun n => (Absent ht key ∧ n = 0) ∨
      ∃ values, StoredList ht key values ∧ n = values.length) := by
  refine read_list (fun ls => pure ls.len) h htyped (fun habsent => Or.inl ⟨habsent, rfl⟩) ?_
  intro ls run hlinked hstored
  exact Or.inr ⟨_, hstored, by rw [hlinked.len, List.length_map]⟩

/-- The index as the source normalises it: from the end when negative. -/
def normalised (len id : Int) : Int := if id < 0 then len + id else id

theorem htable_check_id_spec (h : StoreOk mc ht) (htyped : TypedAt ht key .LIST_T) (id : Int) :
    Ensures (Missed mc ht key) (htable_check_id mc ht key id) (fun r => (Absent ht key ∧ r = (-1, id)) ∨
      ∃ values, StoredList ht key values ∧ r.2 = normalised values.length id ∧
        r.1 = if 0 ≤ normalised values.length id ∧ normalised values.length id < values.length
          then 1 else 0) := by
  refine read_list _ h htyped (fun habsent => Or.inl ⟨habsent, rfl⟩) ?_
  intro ls run hlinked hstored
  refine Or.inr ⟨_, hstored, ?_⟩
  rw [List.length_map, ← hlinked.len]
  exact ⟨rfl, rfl⟩

theorem htable_check_ids_spec (h : StoreOk mc ht) (htyped : TypedAt ht key .LIST_T) (bgn stop : Int) :
    Ensures (Missed mc ht key) (htable_check_ids mc ht key bgn stop) (fun r =>
      (Absent ht key ∧ r = (-1, bgn, stop)) ∨
      ∃ values : List CStr, StoredList ht key values ∧
        r.2 = (normalised values.length bgn, normalised values.length stop) ∧
        r.1 = if r.2.1 ≤ r.2.2 ∧ 0 ≤ r.2.1 ∧ r.2.2 < values.length then 1 else 0) := by
  refine read_list _ h htyped (fun habsent => Or.inl ⟨habsent, rfl⟩) ?_
  intro ls run hlinked hstored
  refine Or.inr ⟨_, hstored, ?_⟩
  rw [List.length_map, ← hlinked.len]
  refine ⟨rfl, if_congr ⟨fun hrange => ⟨hrange.1, hrange.2.1.1, hrange.2.2.2⟩, fun hrange => ?_⟩ rfl rfl⟩
  obtain ⟨hle, hlow, hhigh⟩ := hrange
  exact ⟨hle, ⟨hlow, lt_of_le_of_lt hle hhigh⟩, le_trans hlow hle, hhigh⟩

/-- The value at an index; an index outside the list finds none. -/
theorem htable_lindex_spec (h : StoreOk mc ht) (htyped : TypedAt ht key .LIST_T) (id : Int) :
    Ensures (Missed mc ht key) (htable_lindex mc ht key id) (fun r => (Absent ht key ∧ r = none) ∨
      ∃ values, StoredList ht key values ∧ r = values[id.toNat]?) := by
  refine read_list _ h htyped (fun habsent => Or.inl ⟨habsent, rfl⟩) ?_
  intro ls run hlinked hstored
  rw [list_index_spec hlinked, ok_bind]
  cases hdrop : run.drop id.toNat with
  | nil =>
    refine Or.inr ⟨_, hstored, ?_⟩
    rw [List.getElem?_map, List.getElem?_eq_none (List.drop_eq_nil_iff.mp hdrop)]
    rfl
  | cons node rest =>
    have hat : run[id.toNat]? = some node := by
      rw [← List.head?_drop, hdrop]
      rfl
    obtain ⟨next, prev, hnode⟩ := hlinked.node_at hat
    simp only [first_cons, hnode, ok_bind]
    exact Or.inr ⟨_, hstored, by rw [List.getElem?_map, hat]; rfl⟩

theorem htable_lpos_spec (h : StoreOk mc ht) (htyped : TypedAt ht key .LIST_T) (value : CStr) :
    Ensures (Missed mc ht key) (htable_lpos mc ht key value) (fun n => (Absent ht key ∧ n = -1) ∨
      ∃ values, StoredList ht key values ∧
        n = if value ∈ values then (values.idxOf value : Int) else -1) := by
  refine read_list _ h htyped (fun habsent => Or.inl ⟨habsent, rfl⟩) ?_
  intro ls run hlinked hstored
  rw [list_pos_spec hlinked]
  exact Or.inr ⟨_, hstored, rfl⟩

/-- The elements of a range that the index check admits. -/
theorem htable_lrange_spec (h : StoreOk mc ht) (htyped : TypedAt ht key .LIST_T) {values : List CStr}
    (hstored : StoredList ht key values) {bgn stop : Int} (hbgn : 0 ≤ bgn) (hle : bgn ≤ stop)
    (hstop : stop < values.length) :
    Ensures (Missed mc ht key) (htable_lrange mc ht key bgn stop)
      (fun r => r = some ((values.drop bgn.toNat).take (stop - bgn + 1).toNat)) := by
  refine (htable_type_spec h.table key).bind ?_
  intro name hname
  have htype : is_type name (cstr "list") = true := (hname .LIST_T).mpr htyped
  rw [if_pos htype]
  refine (htable_search_typed_missed h htyped).bind ?_
  intro r hr
  cases r with
  | none =>
    obtain ⟨ls, hls, _⟩ := hstored
    exact absurd hr hls.not_absent
  | some found =>
    obtain ⟨hold, hitem, htype⟩ := hr
    obtain ⟨ls, hvalue, run, hne, hlinked⟩ := hitem.list htype
    have heq := hstored.unique h.table
      ⟨ls, hold.stored hvalue, ⟨run, hlinked, rfl⟩, fun hnil => hne (List.map_eq_nil_iff.mp hnil)⟩
    subst heq
    rw [List.length_map, ← hlinked.len] at hstop
    simp only [hvalue, Value.asList, ok_bind, list_range_spec hlinked hbgn hle hstop]
    rfl

/-! ## Sets -/

theorem htable_sismember_spec (h : StoreOk mc ht) (htyped : TypedAt ht key .SET_T) (value : CStr) :
    Ensures (IndexFault mc) (htable_sismember mc ht key value) (fun b => (Absent ht key ∧ b = false) ∨
      ∃ st, Stored ht key (.set st) ∧ (b = true ↔ value ∈ set_members st)) := by
  refine read_ensures (fun _ => Missed.indexFault) h htyped (fun habsent => Or.inl ⟨habsent, rfl⟩) ?_
  intro p item hold hitem htype
  obtain ⟨st, hvalue, ops, hrun⟩ := hitem.set htype
  simp only [hvalue, Value.asSet, ok_bind]
  exact (set_ismember_spec (set_run_setOk hrun) value).mono (fun b hb => Or.inr ⟨st, hold.stored hvalue, hb⟩)

theorem htable_smembers_spec (h : StoreOk mc ht) (htyped : TypedAt ht key .SET_T) :
    Ensures (IndexFault mc) (htable_smembers mc ht key) (fun r => (Absent ht key ∧ r = none) ∨
      ∃ st, Stored ht key (.set st) ∧ r = some (set_members st)) := by
  refine read_ensures (fun _ => Missed.indexFault) h htyped (fun habsent => Or.inl ⟨habsent, rfl⟩) ?_
  intro p item hold hitem htype
  obtain ⟨st, hvalue, _⟩ := hitem.set htype
  simp only [hvalue, Value.asSet, ok_bind]
  exact Or.inr ⟨st, hold.stored hvalue, rfl⟩

end hyperkv
