import HyperKV.Interpreter.Arithmetic

open Outcome

namespace hyperkv

variable {mc : Machine} {ht : HashTable} {key : CStr} {values : List CStr}

theorem CList.Represents.len {ls : CList} (h : ls.Represents values) : ls.len = values.length := by
  obtain ⟨run, hlinked, rfl⟩ := h
  rw [hlinked.len, List.length_map]

theorem CList.Represents.unique {ls : CList} {values' : List CStr} (h : ls.Represents values)
    (h' : ls.Represents values') : values = values' := by
  obtain ⟨run, hlinked, rfl⟩ := h
  obtain ⟨run', hlinked', rfl⟩ := h'
  exact hlinked.values_eq hlinked'

/-- A list that is read whole. -/
theorem storedList_of_reads (h : StoreOk mc ht) (htyped : TypedAt ht key .LIST_T) {n : Int} (hpos : 0 < n)
    (hllen : htable_llen mc ht key = .ok n) (hlrange : htable_lrange mc ht key 0 (n - 1) = .ok (some values)) :
    StoredList ht key values := by
  rcases (htable_llen_spec h htyped).of_eq_ok hllen with ⟨_, hzero⟩ | ⟨stored, hstored, hlen⟩
  · exact absurd hzero (ne_of_gt hpos)
  have hread := (htable_lrange_spec h htyped hstored le_rfl (by omega) (by omega)).of_eq_ok hlrange
  have hall : ((stored.drop (0 : Int).toNat).take (n - 1 - 0 + 1).toNat) = stored :=
    List.take_of_length_le (by rw [List.length_drop]; omega)
  rw [hall] at hread
  rwa [Option.some.inj hread]

/-! ## Indices -/

/-- The index that an argument stands for lies in the list. -/
def InRange (values : List CStr) (i : Int) : Prop :=
  0 ≤ normalised values.length i ∧ normalised values.length i < values.length

instance (values : List CStr) (i : Int) : Decidable (InRange values i) :=
  inferInstanceAs (Decidable (_ ∧ _))

/-- What `LINDEX` is to answer. -/
def index_reply (values : List CStr) (i : Int) : CStr :=
  if InRange values i then reply_string values[(normalised values.length i).toNat]? else reply_err_intid

/-- What `LRANGE` is to answer: the elements at consecutive indices. -/
def range_reply (values : List CStr) (a b : Int) : CStr :=
  if InRange values a ∧ InRange values b ∧ normalised values.length a ≤ normalised values.length b then
    reply_array_n ((List.range (normalised values.length b - normalised values.length a + 1).toNat).map
      fun k => values[(normalised values.length a).toNat + k]?)
  else reply_err_intid

theorem map_some_drop_take {n count : Nat} (h : n + count ≤ values.length) :
    ((values.drop n).take count).map some = (List.range count).map fun k => values[n + k]? := by
  apply List.ext_getElem?
  intro k
  rw [List.getElem?_map, List.getElem?_map]
  by_cases hk : k < count
  · have hin : n + k < values.length := by omega
    rw [List.getElem?_take_of_lt hk, List.getElem?_drop, List.getElem?_range hk, Option.map_some,
      List.getElem?_eq_getElem hin]
    rfl
  · have hdone : count ≤ k := Nat.le_of_not_lt hk
    rw [List.getElem?_eq_none (by rw [List.length_take, List.length_drop]; omega),
      List.getElem?_eq_none (by rw [List.length_range]; exact hdone)]
    rfl

theorem index_reply_set {i : Int} (h : InRange values i) (value : CStr) (j : Int) :
    index_reply (values.set (normalised values.length i).toNat value) j =
      if normalised values.length j = normalised values.length i then reply_string (some value)
      else index_reply values j := by
  obtain ⟨hlow, hhigh⟩ := h
  have hrange : InRange (values.set (normalised values.length i).toNat value) j ↔ InRange values j := by
    unfold InRange
    rw [List.length_set]
  unfold index_reply
  rw [List.length_set]
  by_cases hsame : normalised values.length j = normalised values.length i
  · have hin : InRange values j := by
      unfold InRange
      rw [hsame]
      exact ⟨hlow, hhigh⟩
    rw [if_pos hsame, if_pos (hrange.mpr hin), hsame, List.getElem?_set_self (by omega)]
  · rw [if_neg hsame]
    by_cases hin : InRange values j
    · have hother : (normalised values.length i).toNat ≠ (normalised values.length j).toNat := by
        obtain ⟨hlow', _⟩ := hin
        omega
      rw [if_pos (hrange.mpr hin), if_pos hin, List.getElem?_set_ne hother]
    · rw [if_neg (fun hin' => hin (hrange.mp hin')), if_neg hin]

theorem interpret_lindex_stored (h : StoreOk mc ht) (hstored : StoredList ht key values) {index : CStr}
    {i : Int} (hindex : Operand index i) :
    interpret mc ht ⟨.LINDEX, [key, index]⟩ = .ok (index_reply values i, ht) := by
  have htyped := hstored.typedAt h
  apply eq_of_present hstored.not_absent
  change Ensures _ (exec_lindex mc ht ⟨.LINDEX, [key, index]⟩) _
  unfold exec_lindex
  apply typed_ensures h key (fun _ => id) rfl rfl rfl htyped
  change Ensures _ (if is_number index then _ else _) _
  rw [hindex.number, hindex.value]
  apply (htable_check_id_spec h htyped i).bind
  rintro ⟨code, id⟩ (⟨habsent, _⟩ | ⟨values', hstored', hid, hcode⟩)
  · exact absurd habsent hstored.not_absent
  cases hstored.unique h.table hstored'
  obtain rfl : id = normalised values.length i := hid
  have hchecked : code = if InRange values i then 1 else 0 := hcode
  unfold index_reply
  by_cases hin : InRange values i
  · rw [if_pos hin] at hchecked ⊢
    subst hchecked
    apply (htable_lindex_spec h htyped _).bind
    rintro res (⟨habsent, _⟩ | ⟨values', hstored', rfl⟩)
    · exact absurd habsent hstored.not_absent
    cases hstored.unique h.table hstored'
    rfl
  · rw [if_neg hin] at hchecked ⊢
    subst hchecked
    rfl

theorem interpret_lrange_stored (h : StoreOk mc ht) (hstored : StoredList ht key values) {bgn stop : CStr}
    {a b : Int} (hbgn : Operand bgn a) (hstop : Operand stop b) :
    interpret mc ht ⟨.LRANGE, [key, bgn, stop]⟩ = .ok (range_reply values a b, ht) := by
  have htyped := hstored.typedAt h
  apply eq_of_present hstored.not_absent
  change Ensures _ (exec_lrange mc ht ⟨.LRANGE, [key, bgn, stop]⟩) _
  unfold exec_lrange
  apply typed_ensures h key (fun _ => id) rfl rfl rfl htyped
  change Ensures _ (if is_number bgn && is_number stop then _ else _) _
  rw [hbgn.number, hstop.number, hbgn.value, hstop.value]
  apply (htable_check_ids_spec h htyped a b).bind
  rintro ⟨code, id, id'⟩ (⟨habsent, _⟩ | ⟨values', hstored', hids, hcode⟩)
  · exact absurd habsent hstored.not_absent
  cases hstored.unique h.table hstored'
  cases hids
  unfold range_reply
  by_cases hin : InRange values a ∧ InRange values b ∧
      normalised values.length a ≤ normalised values.length b
  · rw [if_pos hin]
    obtain ⟨⟨hlow, _⟩, ⟨_, hhigh⟩, hle⟩ := hin
    rw [if_pos ⟨hle, hlow, hhigh⟩] at hcode
    cases hcode
    apply (htable_lrange_spec h htyped hstored hlow hle hhigh).bind
    rintro res rfl
    change _ = _
    rw [reply_array_eq, Option.getD_some, map_some_drop_take (by omega)]
  · have hrefused : ¬ (normalised values.length a ≤ normalised values.length b ∧
        0 ≤ normalised values.length a ∧ normalised values.length b < values.length) := by
      rintro ⟨hle, hlow, hhigh⟩
      exact hin ⟨⟨hlow, lt_of_le_of_lt hle hhigh⟩, ⟨le_trans hlow hle, hhigh⟩, hle⟩
    rw [if_neg hrefused] at hcode
    rw [if_neg hin]
    cases hcode
    rfl

theorem interpret_lset_stored (h : StoreOk mc ht) (hstored : StoredList ht key values) {index : CStr} {i : Int}
    (hindex : Operand index i) (value : CStr) :
    ∃ r, interpret mc ht ⟨.LSET, [key, index, value]⟩ = .ok r ∧
      if InRange values i then r.1 = reply_string (some (cstr "OK")) ∧ StoreOk mc r.2 ∧
        StoredList r.2 key (values.set (normalised values.length i).toNat value)
      else r = (reply_err_intid, ht) := by
  have htyped := hstored.typedAt h
  apply returns_of_present hstored.not_absent
  change Ensures _ (exec_lset mc ht ⟨.LSET, [key, index, value]⟩) _
  unfold exec_lset
  apply typed_ensures h key (fun _ => id) rfl rfl rfl htyped
  change Ensures _ (if is_number index then _ else _) _
  rw [hindex.number, hindex.value]
  apply (htable_check_id_spec h htyped i).bind
  rintro ⟨code, id⟩ (⟨habsent, _⟩ | ⟨values', hstored', hid, hcode⟩)
  · exact absurd habsent hstored.not_absent
  cases hstored.unique h.table hstored'
  obtain rfl : id = normalised values.length i := hid
  have hchecked : code = if InRange values i then 1 else 0 := hcode
  by_cases hin : InRange values i
  · rw [if_pos hin] at hchecked
    subst hchecked
    apply (htable_lset_spec h htyped (normalised values.length i) value).bind
    rintro r ⟨hok, ⟨habsent, _⟩ | ⟨ls, ls', values', hls, hrep, hrep', _, hset⟩⟩
    · exact absurd habsent hstored.not_absent
    have hne : values ≠ [] := by
      obtain ⟨_, _, _, hne⟩ := hstored
      exact hne
    have hlist : StoredList ht key values' := by
      refine ⟨ls, hls, hrep, ?_⟩
      obtain ⟨ls₀, hls₀, hrep₀, hne₀⟩ := hstored
      cases hls.unique h.table hls₀
      rw [hrep.unique hrep₀]
      exact hne₀
    cases hstored.unique h.table hlist
    change if InRange values i then _ else _
    rw [if_pos hin]
    refine ⟨rfl, hok, ls', hset, hrep', ?_⟩
    intro hnil
    have hlength := congrArg List.length hnil
    rw [List.length_set] at hlength
    exact hne (List.length_eq_zero_iff.mp hlength)
  · rw [if_neg hin] at hchecked
    subst hchecked
    change if InRange values i then _ else _
    rw [if_neg hin]

/-- `LINDEX`, `LSET` and `LRANGE` address a list in the same way: an index counts
    from the head, a negative one from behind the tail, and one outside the list
    is refused. `LSET` changes what `LINDEX` answers at its own position only. On a
    list that is there they meet no fault, whatever the arithmetic. -/
theorem list_indices_agree (mc : Machine) {ht : HashTable} (h : Reachable mc ht) {key : CStr}
    {values : List CStr} (hstored : StoredList ht key values) :
    (∀ index i, Operand index i →
      interpret mc ht ⟨.LINDEX, [key, index]⟩ = .ok (index_reply values i, ht)) ∧
    (∀ index i value, Operand index i → ∃ r, interpret mc ht ⟨.LSET, [key, index, value]⟩ = .ok r ∧
        if InRange values i then r.1 = reply_string (some (cstr "OK")) ∧
          StoredList r.2 key (values.set (normalised values.length i).toNat value) ∧
          ∀ other j, Operand other j → interpret mc r.2 ⟨.LINDEX, [key, other]⟩ = .ok
              (if normalised values.length j = normalised values.length i then reply_string (some value)
                else index_reply values j, r.2)
        else r = (reply_err_intid, ht)) ∧
    ∀ bgn stop a b, Operand bgn a → Operand stop b →
      interpret mc ht ⟨.LRANGE, [key, bgn, stop]⟩ = .ok (range_reply values a b, ht) := by
  have hok := h.storeOk
  refine ⟨fun index i hindex => interpret_lindex_stored hok hstored hindex, fun index i value hindex => ?_,
    fun bgn stop a b hbgn hstop => interpret_lrange_stored hok hstored hbgn hstop⟩
  obtain ⟨r, hinterpret, hr⟩ := interpret_lset_stored hok hstored hindex value
  refine ⟨r, hinterpret, ?_⟩
  by_cases hin : InRange values i
  · rw [if_pos hin] at hr ⊢
    obtain ⟨hreply, hok', hset⟩ := hr
    refine ⟨hreply, hset, fun other j hother => ?_⟩
    rw [← index_reply_set hin]
    exact interpret_lindex_stored hok' hset hother
  · rw [if_neg hin] at hr ⊢
    exact hr

theorem list_indices_agree_ends :
    Ensures (fun _ => False)
      (run_commands machine [⟨.RPUSH, [cstr "k", cstr "a", cstr "b", cstr "c"]⟩])
      (fun ht =>
        interpret machine ht ⟨.LINDEX, [cstr "k", cstr "-1"]⟩ = .ok (reply_string (some (cstr "c")), ht) ∧
        interpret machine ht ⟨.LSET, [cstr "k", cstr "3", cstr "d"]⟩ = .ok (reply_err_intid, ht) ∧
        interpret machine ht ⟨.LRANGE, [cstr "k", cstr "1", cstr "-1"]⟩ =
          .ok (reply_array_n [some (cstr "b"), some (cstr "c")], ht)) := by
  have hread : Ensures (fun _ => False)
      (run_commands machine [⟨.RPUSH, [cstr "k", cstr "a", cstr "b", cstr "c"]⟩])
      (fun ht => TypedAt ht (cstr "k") .LIST_T ∧ htable_llen machine ht (cstr "k") = .ok 3 ∧
        htable_lrange machine ht (cstr "k") 0 2 = .ok (some [cstr "a", cstr "b", cstr "c"])) := by
    decide +kernel
  apply hread.mono_eq
  rintro ht hrun ⟨htyped, hllen, hlrange⟩
  have hreach : Reachable machine ht := ⟨_, hrun⟩
  have hstored := storedList_of_reads hreach.storeOk htyped (by decide) hllen hlrange
  have hfirst : Operand (cstr "1") 1 := ⟨by decide, by decide⟩
  have hlast : Operand (cstr "-1") (-1) := ⟨by decide, by decide⟩
  have hbehind : Operand (cstr "3") 3 := ⟨by decide, by decide⟩
  obtain ⟨hlindex, hlset, hrange⟩ := list_indices_agree machine hreach hstored
  obtain ⟨r, hrefused, hr⟩ := hlset _ _ (cstr "d") hbehind
  refine ⟨hlindex _ _ hlast, ?_, hrange _ _ _ _ hfirst hlast⟩
  rw [hrefused]
  exact congrArg Except.ok hr

/-! ## Lists are not empty -/

theorem ItemOk.storedList {item : HashTableItem Value} (hitem : ItemOk mc item) (hmem : item ∈ ht.items)
    (htype : item.type = .LIST_T) :
    ∃ ls values, item.value = .list ls ∧ ls.Represents values ∧ 1 ≤ ls.len ∧
      StoredList ht item.key values := by
  obtain ⟨ls, hvalue, run, hne, hlinked⟩ := hitem.list htype
  have hlength := List.length_pos_iff.mpr hne
  have hlen := hlinked.len
  have hvalues : run.map Prod.snd ≠ [] := fun hnil => hne (List.map_eq_nil_iff.mp hnil)
  exact ⟨ls, run.map Prod.snd, hvalue, ⟨run, hlinked, rfl⟩, by omega, ls, ⟨item, hmem, rfl, hvalue⟩,
    ⟨run, hlinked, rfl⟩, hvalues⟩

/-- A stored list pointer is the list of its key. -/
theorem Stored.storedList (h : StoreOk mc ht) {ls : CList} (hstored : Stored ht key (.list ls)) :
    ∃ values, ls.Represents values ∧ values ≠ [] ∧ StoredList ht key values := by
  have htyped := hstored.typedAt h
  obtain ⟨item, hmem, rfl, hvalue⟩ := hstored
  obtain ⟨ls', values, hvalue', hrep, _, hlist⟩ := (h.items item hmem).storedList hmem (htyped item hmem rfl)
  rw [hvalue] at hvalue'
  cases hvalue'
  obtain ⟨_, _, _, hne⟩ := id hlist
  exact ⟨values, hrep, hne, hlist⟩

/-- The key holds this sequence, and does not exist when there is nothing left. -/
def HoldsList (ht : HashTable) (key : CStr) (values : List CStr) : Prop :=
  if values = [] then Absent ht key else StoredList ht key values

/-- The end of a removal from a list, in terms of the sequence. -/
theorem holdsList_of_dropped {ls : CList} (hrep : ls.Represents values)
    (hdropped : if ls.len = 0 then Absent ht key else Stored ht key (.list ls)) : HoldsList ht key values := by
  have hlen := hrep.len
  unfold HoldsList
  by_cases hnil : values = []
  · have hzero : ls.len = 0 := by simp [hlen, hnil]
    rw [if_pos hnil]
    rwa [if_pos hzero] at hdropped
  · rw [if_neg hnil]
    have hpos := List.length_pos_iff.mpr hnil
    rw [if_neg (by omega)] at hdropped
    exact ⟨ls, hdropped, hrep, hnil⟩

theorem htable_pop_stored (h : StoreOk mc ht) (hstored : StoredList ht key values) (dir : ListDirection) :
    Ensures (IndexFault mc) (htable_pop mc ht key dir) (fun r => ∃ value rest, values = dir.put value rest ∧
      r.2 = some value ∧ HoldsList r.1 key rest) := by
  apply (htable_pop_spec h (hstored.typedAt h) dir).mono
  rintro r ⟨_, ⟨habsent, _⟩ | ⟨ls, ls', value, rest, hls, hrep, hrep', hres, hdropped⟩⟩
  · exact absurd habsent hstored.not_absent
  obtain ⟨ls₀, hls₀, hrep₀, _⟩ := hstored
  cases hls.unique h.table hls₀
  exact ⟨value, rest, hrep₀.unique hrep, hres, holdsList_of_dropped hrep' hdropped⟩

theorem exec_pop_stored (h : StoreOk mc ht) (hstored : StoredList ht key values) (dir : ListDirection)
    (type : CommandType) :
    Ensures (IndexFault mc) (exec_pop mc dir ht ⟨type, [key]⟩) (fun r => ∃ value rest,
      values = dir.put value rest ∧ r.1 = reply_string (some value) ∧ HoldsList r.2 key rest) := by
  unfold exec_pop
  apply typed_ensures h key (fun _ => Missed.indexFault) rfl rfl rfl (hstored.typedAt h)
  apply (htable_pop_stored h hstored dir).bind
  rintro r ⟨value, rest, hvalues, hres, hholds⟩
  refine ⟨value, rest, hvalues, ?_, hholds⟩
  rw [← hres]

theorem interpret_lrem_stored (h : StoreOk mc ht) (hstored : StoredList ht key values) {count : CStr} {n : Int}
    (hcount : Operand count n) (value : CStr) :
    Ensures (IndexFault mc) (interpret mc ht ⟨.LREM, [key, count, value]⟩) (fun r =>
      r.1 = reply_integer (deleted n value values) ∧ HoldsList r.2 key (kept n value values)) := by
  have htyped := hstored.typedAt h
  change Ensures _ (exec_lrem mc ht ⟨.LREM, [key, count, value]⟩) _
  unfold exec_lrem
  apply typed_ensures h key (fun _ => Missed.indexFault) rfl rfl rfl htyped
  change Ensures _ (if is_number count then _ else _) _
  rw [hcount.number, hcount.value]
  apply (htable_lrem_spec h htyped n value).bind
  rintro r ⟨_, ⟨habsent, _⟩ | ⟨ls, ls', values', hls, hrep, hrep', hres, hdropped⟩⟩
  · exact absurd habsent hstored.not_absent
  obtain ⟨ls₀, hls₀, hrep₀, _⟩ := hstored
  cases hls.unique h.table hls₀
  cases hrep.unique hrep₀
  refine ⟨?_, holdsList_of_dropped hrep' hdropped⟩
  rw [← hres]

/-- No stored list is empty, so a pop always finds a node, and the key goes with
    the last element that `LPOP`, `RPOP` or `LREM` takes. -/
theorem lists_not_empty (mc : Machine) {ht : HashTable} (h : Reachable mc ht) :
    (∀ item ∈ ht.items, item.type = .LIST_T → ∃ ls values, item.value = .list ls ∧ ls.Represents values ∧
      1 ≤ ls.len ∧ StoredList ht item.key values) ∧
    (∀ key ls dir, Stored ht key (.list ls) →
      (∃ node ls', list_pop dir ls = .ok (some node, ls')) ∧
      Ensures (IndexFault mc) (htable_pop mc ht key dir) (fun r => ∃ value, r.2 = some value)) ∧
    ∀ key values, StoredList ht key values →
      Ensures (IndexFault mc) (interpret mc ht ⟨.LPOP, [key]⟩) (fun r => ∃ value rest,
        values = value :: rest ∧ r.1 = reply_string (some value) ∧ HoldsList r.2 key rest) ∧
      Ensures (IndexFault mc) (interpret mc ht ⟨.RPOP, [key]⟩) (fun r => ∃ value rest,
        values = rest ++ [value] ∧ r.1 = reply_string (some value) ∧ HoldsList r.2 key rest) ∧
      ∀ count n value, Operand count n →
        Ensures (IndexFault mc) (interpret mc ht ⟨.LREM, [key, count, value]⟩) (fun r =>
          r.1 = reply_integer (deleted n value values) ∧ HoldsList r.2 key (kept n value values)) := by
  have hok := h.storeOk
  refine ⟨fun item hmem htype => (hok.items item hmem).storedList hmem htype, ?_, ?_⟩
  · intro key ls dir hstored
    obtain ⟨values, hrep, hne, hlist⟩ := hstored.storedList hok
    obtain ⟨run, hlinked, rfl⟩ := hrep
    have hrun : run ≠ [] := fun hnil => hne (List.map_eq_nil_iff.mpr hnil)
    obtain ⟨value, ls', _, hpop, _⟩ := list_pop_spec hlinked hrun dir
    refine ⟨⟨_, ls', hpop⟩, (htable_pop_stored hok hlist dir).mono ?_⟩
    rintro r ⟨value, _, _, hres, _⟩
    exact ⟨value, hres⟩
  · intro key values hstored
    exact ⟨exec_pop_stored hok hstored .LEFT .LPOP, exec_pop_stored hok hstored .RIGHT .RPOP,
      fun count n value hcount => interpret_lrem_stored hok hstored hcount value⟩

theorem lists_not_empty_last :
    Ensures (fun _ => False) (run_commands machine [⟨.RPUSH, [cstr "k", cstr "a", cstr "a"]⟩]) (fun ht =>
      Ensures (fun _ => False) (interpret machine ht ⟨.LREM, [cstr "k", cstr "0", cstr "a"]⟩)
        (fun r => r.1 = reply_integer 2 ∧ Absent r.2 (cstr "k"))) := by
  have hread : Ensures (fun _ => False) (run_commands machine [⟨.RPUSH, [cstr "k", cstr "a", cstr "a"]⟩])
      (fun ht => TypedAt ht (cstr "k") .LIST_T ∧ htable_llen machine ht (cstr "k") = .ok 2 ∧
        htable_lrange machine ht (cstr "k") 0 1 = .ok (some [cstr "a", cstr "a"]) ∧
        Ensures (fun _ => False) (interpret machine ht ⟨.LREM, [cstr "k", cstr "0", cstr "a"]⟩)
          (fun _ => True)) := by
    decide +kernel
  apply hread.mono_eq
  rintro ht hrun ⟨htyped, hllen, hlrange, hreturns⟩
  have hreach : Reachable machine ht := ⟨_, hrun⟩
  have hstored := storedList_of_reads hreach.storeOk htyped (by decide) hllen hlrange
  have hall : Operand (cstr "0") 0 := ⟨by decide, by decide⟩
  obtain ⟨_, _, hlists⟩ := lists_not_empty machine hreach
  exact (hreturns.and ((hlists _ _ hstored).2.2 _ _ (cstr "a") hall).anyFault).mono (fun _ hr => hr.2)

end hyperkv
