import HyperKV.Interpreter.Encoding
import HyperKV.Interpreter.Lists
import HyperKV.Interpreter.ReadBack

open Outcome OpenAddressing hyperkv.Resp

namespace hyperkv

variable {mc : Machine} {ht : HashTable} {key : CStr}

/-- The reads of one container, with arguments that they accept. -/
def reads_container : CommandType → List CStr → Bool
  | .HMGET, args => args ≠ []
  | .HGETALL, args | .HKEYS, args | .HVALS, args | .SMEMBERS, args => args = []
  | .LRANGE, [bgn, stop] => is_number bgn && is_number stop
  | _, _ => false

/-- The strings stored at the places that a multi-value read names, in the order
    of its reply. -/
inductive BulkRead (ht : HashTable) : Command → List (Option CStr) → Prop where
  | mget {keys values} : keys ≠ [] → List.Forall₂ (StringAt ht) keys values → BulkRead ht ⟨.MGET, keys⟩ values
  | hmget {key t fields values} : Stored ht key (.hash t) → fields ≠ [] →
      List.Forall₂ (StringAt t) fields values → BulkRead ht ⟨.HMGET, key :: fields⟩ values
  | hgetall {key t} : Stored ht key (.hash t) →
      BulkRead ht ⟨.HGETALL, [key]⟩ ((t.items.flatMap fun item => [item.key, item_text item]).map some)
  | hkeys {key t} : Stored ht key (.hash t) →
      BulkRead ht ⟨.HKEYS, [key]⟩ ((t.items.flatMap fun item => [item.key]).map some)
  | hvals {key t} : Stored ht key (.hash t) →
      BulkRead ht ⟨.HVALS, [key]⟩ ((t.items.flatMap fun item => [item_text item]).map some)
  | lrange {key bgn stop values} : StoredList ht key values → is_number bgn → is_number stop →
      0 ≤ normalised values.length (strtoi bgn) →
      normalised values.length (strtoi bgn) ≤ normalised values.length (strtoi stop) →
      normalised values.length (strtoi stop) < values.length →
      BulkRead ht ⟨.LRANGE, [key, bgn, stop]⟩
        (((values.drop (normalised values.length (strtoi bgn)).toNat).take
          (normalised values.length (strtoi stop) -
            normalised values.length (strtoi bgn) + 1).toNat).map some)
  | smembers {key st} : Stored ht key (.set st) → BulkRead ht ⟨.SMEMBERS, [key]⟩ ((set_members st).map some)
  | missing {type key args} : Absent ht key → reads_container type args → BulkRead ht ⟨type, key :: args⟩ []

/-- The commands that list a hash by its counter. -/
def lists_hash : CommandType → Bool
  | .HGETALL | .HKEYS | .HVALS => true
  | _ => false

/-- A listing of a hash is complete: its counter is exact, or it has no fields. -/
def Complete (ht : HashTable) (cmd : Command) : Prop :=
  lists_hash cmd.type → ∀ key t, cmd.argv = [key] → Stored ht key (.hash t) → Scheme.Counted t ∨ t.items = []

theorem complete_of_other {cmd : Command} (hother : lists_hash cmd.type = false) : Complete ht cmd := by
  intro hlists
  rw [hother] at hlists
  cases hlists

theorem complete_iff (h : StoreOk mc ht) {type : CommandType} {t : HashTable}
    (hstored : Stored ht key (.hash t)) (htype : lists_hash type) :
    Complete ht ⟨type, [key]⟩ ↔ Scheme.Counted t ∨ t.items = [] := by
  refine ⟨fun hcomplete => hcomplete htype key t rfl hstored, fun hall _ key' t' hargv hstored' => ?_⟩
  cases hargv
  cases hstored.unique h.table hstored'
  exact hall

/-- The reply to a bulk read is right when it sends what is stored, every string
    of it as it is. -/
theorem strings_agree {arr values : List (Option CStr)} (hlen : arr.length = values.length → arr = values) :
    strings (reply_array_n arr) = some values ↔ (∀ s, some s ∈ values → Faithful s) ∧ arr = values := by
  constructor
  · intro h
    have heq := hlen (length_strings h).symm
    subst heq
    exact ⟨(strings_reply_array_n arr).mp h, rfl⟩
  · rintro ⟨hfaithful, rfl⟩
    exact (strings_reply_array_n arr).mpr hfaithful

/-- Reading a list of places. -/
theorem mapM_strings {read : CStr → Exec (Option CStr)} {place : CStr → Option CStr → Prop} {keys : List CStr}
    {values : List (Option CStr)} (h : List.Forall₂ place keys values)
    (hread : ∀ key str, place key str → Ensures (IndexFault mc) (read key) (fun r => r = str)) :
    Ensures (IndexFault mc) (keys.mapM read) (fun r => r = values) := by
  induction h with
  | nil => rfl
  | cons hstr _ ih =>
    rw [List.mapM_cons]
    refine (hread _ _ hstr).bind (fun str heq => ih.bind (fun strs heq' => ?_))
    rw [heq, heq']
    rfl

/-- A listing of a hash, whichever of its texts are listed. -/
theorem listing_agrees {t : HashTable} {width : Nat} {texts : HashTableItem Value → List CStr}
    {r : Option (List CStr)} (h : Listed t width texts r) (hwidth : 0 < width)
    (htexts : ∀ item, (texts item).length = width) :
    strings (reply_array r) = some ((t.items.flatMap texts).map some) ↔
      (∀ s, some s ∈ (t.items.flatMap texts).map some → Faithful s) ∧ (Scheme.Counted t ∨ t.items = []) := by
  rw [reply_array_eq, strings_agree, ← h.complete_iff hwidth htexts,
    List.map_inj_right (fun _ _ => Option.some.inj)]
  rw [List.length_map, List.length_map]
  exact fun hlen => congrArg _ (h.eq_of_length hlen)

/-- A reply that sends what is stored. -/
theorem reply_agrees (values : List CStr) :
    strings (reply_array (some values)) = some (values.map some) ↔
      ∀ s, some s ∈ values.map some → Faithful s := by
  rw [reply_array_eq]
  exact strings_reply_array_n _

/-! ## The commands -/

theorem exec_mget_agrees (h : StoreOk mc ht) {keys : List CStr} {values : List (Option CStr)}
    (hkeys : keys ≠ []) (hvalues : List.Forall₂ (StringAt ht) keys values) :
    Ensures (IndexFault mc) (exec_mget mc ht ⟨.MGET, keys⟩)
      (fun r => strings r.1 = some values ↔ ∀ s, some s ∈ values → Faithful s) := by
  obtain ⟨first, rest, rfl⟩ := List.exists_cons_of_ne_nil hkeys
  have htyped : TypedAt ht first .STR_T := by
    cases hvalues with
    | cons hstr _ => exact hstr.typedAt h
  rw [exec_mget]
  have hargc : (first :: rest).length ≥ 1 := Nat.le_add_left 1 rest.length
  refine typed_ensures h first (fun _ => Missed.indexFault) rfl (decide_eq_true hargc) rfl htyped ?_
  refine (mapM_strings hvalues (fun _ _ hstr => ensures_of_missed (htable_get_stringAt h hstr))).bind ?_
  rintro _ rfl
  exact strings_reply_array_n _

theorem exec_hmget_agrees (h : StoreOk mc ht) {t : HashTable} (hstored : Stored ht key (.hash t))
    {fields : List CStr} {values : List (Option CStr)} (hfields : fields ≠ [])
    (hvalues : List.Forall₂ (StringAt t) fields values) :
    Ensures (IndexFault mc) (exec_hmget mc ht ⟨.HMGET, key :: fields⟩)
      (fun r => strings r.1 = some values ↔ ∀ s, some s ∈ values → Faithful s) := by
  have hargc : (key :: fields).length ≥ 2 := Nat.succ_le_succ (List.length_pos_iff.mpr hfields)
  rw [exec_hmget]
  refine typed_ensures h key (fun _ => Missed.indexFault) rfl (decide_eq_true hargc) rfl
    (hstored.typedAt h) ?_
  refine (htable_exists_spec h.table key).bind (fun found hfound => ?_)
  obtain ⟨item, hmem, hkey, _⟩ := hstored
  cases hfound.mpr ⟨item, hmem, hkey⟩
  refine (mapM_strings hvalues (fun _ _ hstr =>
    htable_hget_stringAt h ⟨item, hmem, hkey, ‹_›⟩ hstr)).bind ?_
  rintro _ rfl
  exact strings_reply_array_n _

theorem exec_hgetall_agrees (h : StoreOk mc ht) {t : HashTable} (hstored : Stored ht key (.hash t)) :
    Ensures (IndexFault mc) (exec_hgetall mc ht ⟨.HGETALL, [key]⟩) (fun r =>
      strings r.1 = some ((t.items.flatMap fun item => [item.key, item_text item]).map some) ↔
        (∀ s, some s ∈ (t.items.flatMap fun item => [item.key, item_text item]).map some → Faithful s) ∧
          (Scheme.Counted t ∨ t.items = [])) := by
  have htyped : TypedAt ht key .HASH_T := hstored.typedAt h
  rw [exec_hgetall]
  refine typed_ensures h key (fun _ => Missed.indexFault) rfl rfl rfl htyped
    ((htable_hgetall_spec h htyped).bind ?_)
  rintro r (⟨habsent, _⟩ | ⟨t', hstored', hlisted⟩)
  · exact absurd habsent hstored.not_absent
  · cases hstored.unique h.table hstored'
    exact listing_agrees hlisted (by decide) (fun _ => rfl)

theorem exec_hkeyvals_agrees (h : StoreOk mc ht) {t : HashTable} (hstored : Stored ht key (.hash t))
    (ky : Bool) (type : CommandType) :
    Ensures (IndexFault mc) (exec_hkeyvals mc ky ht ⟨type, [key]⟩) (fun r =>
      strings r.1 = some ((t.items.flatMap fun item => [if ky then item.key else item_text item]).map some) ↔
        (∀ s, some s ∈ (t.items.flatMap fun item => [if ky then item.key else item_text item]).map some →
          Faithful s) ∧ (Scheme.Counted t ∨ t.items = [])) := by
  have htyped : TypedAt ht key .HASH_T := hstored.typedAt h
  rw [exec_hkeyvals]
  refine typed_ensures h key (fun _ => Missed.indexFault) rfl rfl rfl htyped
    ((htable_hkeyvals_spec h htyped ky).bind ?_)
  rintro r (⟨habsent, _⟩ | ⟨t', hstored', hlisted⟩)
  · exact absurd habsent hstored.not_absent
  · cases hstored.unique h.table hstored'
    exact listing_agrees hlisted (by decide) (fun _ => rfl)

theorem exec_lrange_agrees (h : StoreOk mc ht) {bgn stop : CStr} {values : List CStr}
    (hstored : StoredList ht key values) (hbgn : is_number bgn) (hstop : is_number stop)
    (hlow : 0 ≤ normalised values.length (strtoi bgn))
    (hle : normalised values.length (strtoi bgn) ≤ normalised values.length (strtoi stop))
    (hhigh : normalised values.length (strtoi stop) < values.length) :
    Ensures (IndexFault mc) (exec_lrange mc ht ⟨.LRANGE, [key, bgn, stop]⟩) (fun r =>
      let listed := (values.drop (normalised values.length (strtoi bgn)).toNat).take
        (normalised values.length (strtoi stop) - normalised values.length (strtoi bgn) + 1).toNat
      strings r.1 = some (listed.map some) ↔ ∀ s, some s ∈ listed.map some → Faithful s) := by
  have hin : InRange values (strtoi bgn) ∧ InRange values (strtoi stop) ∧
      normalised values.length (strtoi bgn) ≤ normalised values.length (strtoi stop) :=
    ⟨⟨hlow, lt_of_le_of_lt hle hhigh⟩, ⟨le_trans hlow hle, hhigh⟩, hle⟩
  change Ensures _ (interpret mc ht ⟨.LRANGE, [key, bgn, stop]⟩) _
  rw [interpret_lrange_stored h hstored ⟨hbgn, rfl⟩ ⟨hstop, rfl⟩, range_reply, if_pos hin,
    ← map_some_drop_take (by omega)]
  exact strings_reply_array_n _

theorem exec_smembers_agrees (h : StoreOk mc ht) {st : CSet} (hstored : Stored ht key (.set st)) :
    Ensures (IndexFault mc) (exec_smembers mc ht ⟨.SMEMBERS, [key]⟩) (fun r =>
      strings r.1 = some ((set_members st).map some) ↔
        ∀ s, some s ∈ (set_members st).map some → Faithful s) := by
  have htyped : TypedAt ht key .SET_T := hstored.typedAt h
  rw [exec_smembers]
  refine typed_ensures h key (fun _ => Missed.indexFault) rfl rfl rfl htyped
    ((htable_smembers_spec h htyped).bind ?_)
  rintro r (⟨habsent, _⟩ | ⟨st', hstored', rfl⟩)
  · exact absurd habsent hstored.not_absent
  · cases hstored.unique h.table hstored'
    exact reply_agrees _

theorem exec_hkeyvals_missing (h : StoreOk mc ht) (habsent : Absent ht key) (ky : Bool) {type : CommandType} :
    Ensures (IndexFault mc) (exec_hkeyvals mc ky ht ⟨type, [key]⟩) (fun r => r.1 = reply_array none) := by
  have htyped := habsent.typedAt .HASH_T
  rw [exec_hkeyvals]
  refine typed_ensures h key (fun _ => Missed.indexFault) rfl rfl rfl htyped
    ((htable_hkeyvals_spec h htyped ky).bind ?_)
  rintro r (⟨_, rfl⟩ | ⟨_, hstored, _⟩)
  · rfl
  · exact absurd habsent hstored.not_absent

/-- A read of a missing container sends the empty array. -/
theorem interpret_missing (h : StoreOk mc ht) (habsent : Absent ht key) {type : CommandType}
    {args : List CStr} (hread : reads_container type args) :
    Ensures (IndexFault mc) (interpret mc ht ⟨type, key :: args⟩) (fun r => r.1 = reply_array none) := by
  rw [interpret]
  cases type with
  | HMGET =>
    have hargs : args ≠ [] := of_decide_eq_true hread
    have hargc : (key :: args).length ≥ 2 := Nat.succ_le_succ (List.length_pos_iff.mpr hargs)
    change Ensures _ (exec_hmget mc ht ⟨.HMGET, key :: args⟩) _
    rw [exec_hmget]
    refine typed_ensures h key (fun _ => Missed.indexFault) rfl (decide_eq_true hargc) rfl
      (habsent.typedAt .HASH_T) ?_
    refine (htable_exists_spec h.table key).bind (fun found hfound => ?_)
    cases found with
    | false => rfl
    | true =>
      obtain ⟨item, hmem, hkey⟩ := hfound.mp rfl
      exact absurd hkey (habsent item hmem)
  | HGETALL =>
    cases of_decide_eq_true hread
    change Ensures _ (exec_hgetall mc ht ⟨.HGETALL, [key]⟩) _
    rw [exec_hgetall]
    have htyped := habsent.typedAt .HASH_T
    refine typed_ensures h key (fun _ => Missed.indexFault) rfl rfl rfl htyped
      ((htable_hgetall_spec h htyped).bind ?_)
    rintro r (⟨_, rfl⟩ | ⟨_, hstored, _⟩)
    · rfl
    · exact absurd habsent hstored.not_absent
  | HKEYS =>
    cases of_decide_eq_true hread
    exact exec_hkeyvals_missing h habsent true
  | HVALS =>
    cases of_decide_eq_true hread
    exact exec_hkeyvals_missing h habsent false
  | SMEMBERS =>
    cases of_decide_eq_true hread
    change Ensures _ (exec_smembers mc ht ⟨.SMEMBERS, [key]⟩) _
    rw [exec_smembers]
    have htyped := habsent.typedAt .SET_T
    refine typed_ensures h key (fun _ => Missed.indexFault) rfl rfl rfl htyped
      ((htable_smembers_spec h htyped).bind ?_)
    rintro r (⟨_, rfl⟩ | ⟨_, hstored, _⟩)
    · rfl
    · exact absurd habsent hstored.not_absent
  | LRANGE =>
    rcases args with _ | ⟨bgn, _ | ⟨stop, _ | ⟨extra, rest⟩⟩⟩
    · cases hread
    · cases hread
    · change Ensures _ (exec_lrange mc ht ⟨.LRANGE, [key, bgn, stop]⟩) _
      rw [exec_lrange]
      have htyped := habsent.typedAt .LIST_T
      refine typed_ensures h key (fun _ => Missed.indexFault) rfl rfl rfl htyped ?_
      change Ensures _ (if is_number bgn && is_number stop then _ else _) _
      have hnumbers : (is_number bgn && is_number stop) = true := hread
      rw [if_pos hnumbers]
      refine (ensures_of_missed (htable_check_ids_spec h htyped _ _)).bind ?_
      rintro r (⟨_, rfl⟩ | ⟨_, hstored, _⟩)
      · rfl
      · exact absurd habsent hstored.not_absent
    · cases hread
  | _ => cases hread

theorem interpret_bulk (h : StoreOk mc ht) {cmd : Command} {values : List (Option CStr)}
    (hread : BulkRead ht cmd values) :
    Ensures (IndexFault mc) (interpret mc ht cmd)
      (fun r => strings r.1 = some values ↔ (∀ s, some s ∈ values → Faithful s) ∧ Complete ht cmd) := by
  have hother : ∀ {r : CStr}, (strings r = some values ↔ ∀ s, some s ∈ values → Faithful s) →
      Complete ht cmd →
      (strings r = some values ↔ (∀ s, some s ∈ values → Faithful s) ∧ Complete ht cmd) :=
    fun hr hcomplete => hr.trans (and_iff_left hcomplete).symm
  cases hread with
  | mget hkeys hvalues =>
    exact (exec_mget_agrees h hkeys hvalues).mono
      (fun _ hr => hother hr (complete_of_other rfl))
  | hmget hstored hfields hvalues =>
    exact (exec_hmget_agrees h hstored hfields hvalues).mono
      (fun _ hr => hother hr (complete_of_other rfl))
  | hgetall hstored =>
    exact (exec_hgetall_agrees h hstored).mono
      (fun _ hr => hr.trans (and_congr_right (fun _ => (complete_iff h hstored rfl).symm)))
  | hkeys hstored =>
    exact (exec_hkeyvals_agrees h hstored true .HKEYS).mono
      (fun _ hr => hr.trans (and_congr_right (fun _ => (complete_iff h hstored rfl).symm)))
  | hvals hstored =>
    exact (exec_hkeyvals_agrees h hstored false .HVALS).mono
      (fun _ hr => hr.trans (and_congr_right (fun _ => (complete_iff h hstored rfl).symm)))
  | lrange hstored hbgn hstop hlow hle hhigh =>
    exact (exec_lrange_agrees h hstored hbgn hstop hlow hle hhigh).mono
      (fun _ hr => hother hr (complete_of_other rfl))
  | smembers hstored =>
    exact (exec_smembers_agrees h hstored).mono
      (fun _ hr => hother hr (complete_of_other rfl))
  | missing habsent hargs =>
    refine (interpret_missing h habsent hargs).mono (fun r hr => ?_)
    rw [hr]
    refine iff_of_true rfl ⟨fun _ hs => (List.not_mem_nil hs).elim, fun _ key t hargv hstored => ?_⟩
    cases hargv
    exact absurd habsent hstored.not_absent

/-! ## Single reads -/

theorem interpret_hget (h : StoreOk mc ht) {t : HashTable} (hstored : Stored ht key (.hash t)) {field : CStr}
    {str : Option CStr} (hstr : StringAt t field str) :
    Ensures (IndexFault mc) (interpret mc ht ⟨.HGET, [key, field]⟩)
      (fun r => r = (reply_string str, ht)) := by
  rw [interpret]
  change Ensures _ (exec_hget mc ht ⟨.HGET, [key, field]⟩) _
  rw [exec_hget]
  refine typed_ensures h key (fun _ => Missed.indexFault) rfl rfl rfl (hstored.typedAt h) ?_
  refine (htable_hget_stringAt h hstored hstr).bind ?_
  rintro _ rfl
  rfl

theorem interpret_lindex (h : StoreOk mc ht) {values : List CStr} (hstored : StoredList ht key values)
    {index : CStr} (hindex : is_number index) (hlow : 0 ≤ normalised values.length (strtoi index))
    (hhigh : normalised values.length (strtoi index) < values.length) :
    interpret mc ht ⟨.LINDEX, [key, index]⟩ =
      .ok (reply_string values[(normalised values.length (strtoi index)).toNat]?, ht) := by
  have hin : InRange values (strtoi index) := ⟨hlow, hhigh⟩
  rw [interpret_lindex_stored h hstored ⟨hindex, rfl⟩, index_reply, if_pos hin]

/-- The reply to a multi-value read decodes to the stored strings exactly when
    each of them is sent as it is, and no listing of a hash is cut short by its
    counter. `GET`, `HGET` and `LINDEX` send the stored strings themselves. -/
theorem bulk_reads_agree (mc : Machine) {ht : HashTable} (h : Reachable mc ht) :
    (∀ cmd values, BulkRead ht cmd values → Ensures (IndexFault mc) (interpret mc ht cmd) (fun r =>
      strings r.1 = some values ↔ (∀ s, some s ∈ values → Faithful s) ∧ Complete ht cmd)) ∧
    (∀ key str, StringAt ht key str →
      Ensures (IndexFault mc) (interpret mc ht ⟨.GET, [key]⟩) (fun r => r = (reply_string str, ht))) ∧
    (∀ key t field str, Stored ht key (.hash t) → StringAt t field str →
      Ensures (IndexFault mc) (interpret mc ht ⟨.HGET, [key, field]⟩) (fun r => r = (reply_string str, ht))) ∧
    ∀ key values index, StoredList ht key values → is_number index →
      0 ≤ normalised values.length (strtoi index) → normalised values.length (strtoi index) < values.length →
      interpret mc ht ⟨.LINDEX, [key, index]⟩ =
        .ok (reply_string values[(normalised values.length (strtoi index)).toNat]?, ht) := by
  have hok := h.storeOk
  refine ⟨fun cmd values hread => interpret_bulk hok hread,
    fun _ _ hstr => ensures_of_missed (interpret_get hok hstr),
    fun _ _ _ _ hstored hstr => interpret_hget hok hstored hstr,
    fun _ _ _ hstored hindex hlow hhigh => interpret_lindex hok hstored hindex hlow hhigh⟩

theorem bulk_reads_agree_mget :
    Ensures (IndexFault machine)
      (run_commands machine [⟨.MSET, [cstr "k", cstr "hello", cstr "n", cstr "-7"]⟩])
      (fun ht =>
        Ensures (IndexFault machine) (interpret machine ht ⟨.MGET, [cstr "k", cstr "n", cstr "x"]⟩)
          (fun r => strings r.1 = some [some (cstr "hello"), some (cstr "-7"), none]) ∧
        Ensures (IndexFault machine) (interpret machine ht ⟨.GET, [cstr "n"]⟩)
          (fun r => r = (reply_string (some (cstr "-7")), ht))) := by
  have hgot : Ensures (IndexFault machine)
      (run_commands machine [⟨.MSET, [cstr "k", cstr "hello", cstr "n", cstr "-7"]⟩])
      (fun ht => (∀ key ∈ [cstr "k", cstr "n", cstr "x"], TypedAt ht key .STR_T) ∧
        htable_get machine ht (cstr "k") = .ok (some (cstr "hello")) ∧
        htable_get machine ht (cstr "n") = .ok (some (cstr "-7")) ∧
        htable_get machine ht (cstr "x") = .ok none) := by
    decide +kernel
  refine hgot.mono_eq ?_
  rintro ht hrun ⟨htyped, hk, hn, hx⟩
  have hreach : Reachable machine ht := ⟨_, hrun⟩
  have hstr : ∀ key ∈ [cstr "k", cstr "n", cstr "x"], ∀ str, htable_get machine ht key = .ok str →
      StringAt ht key str :=
    fun key hkey str hget => (htable_get_spec hreach.storeOk (htyped key hkey)).of_eq_ok hget
  have hn' := hstr _ (by decide) _ hn
  refine ⟨((bulk_reads_agree machine hreach).1 _ _ (.mget (by decide) (.cons (hstr _ (by decide) _ hk)
    (.cons hn' (.cons (hstr _ (by decide) _ hx) .nil))))).mono
      (fun r hr => hr.mpr ⟨?_, complete_of_other rfl⟩),
    (bulk_reads_agree machine hreach).2.1 _ _ hn'⟩
  intro s hs
  simp only [List.mem_cons, Option.some.injEq, List.not_mem_nil, or_false, reduceCtorEq] at hs
  rcases hs with rfl | rfl <;> decide

/-- A leading zero is lost in the reply of `MGET`, and `GET` sends it. -/
theorem bulk_reads_differ :
    ¬ Ensures (IndexFault machine)
      (do let ht ← run_commands machine [⟨.SET, [cstr "k", cstr "007"]⟩]
          let bulk ← interpret machine ht ⟨.MGET, [cstr "k"]⟩
          let single ← interpret machine ht ⟨.GET, [cstr "k"]⟩
          return (bulk.1, single.1))
      (fun replies => replies.2 = reply_string (some (cstr "007")) →
        strings replies.1 = some [some (cstr "007")]) := by
  decide +kernel

end hyperkv
