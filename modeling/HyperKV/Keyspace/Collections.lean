import HyperKV.Keyspace.Commands

open Outcome OpenAddressing KeyedStore

namespace hyperkv

variable {mc : Machine}

/-- The arguments behind the key of a command of two and of three. -/
theorem one_argument {args : List CStr} (h : decide (args.length + 1 = 2)) : ∃ arg, args = [arg] :=
  List.length_eq_one_iff.mp (Nat.succ.inj (of_decide_eq_true h))

theorem two_arguments {args : List CStr} (h : decide (args.length + 1 = 3)) : ∃ a b, args = [a, b] :=
  List.length_eq_two.mp (Nat.succ.inj (of_decide_eq_true h))

/-- A listing in an order of its own. -/
theorem encodes_unordered {r : Option (List CStr)} {strs : Multiset CStr}
    (h : ((r.getD [] : List CStr) : Multiset CStr) = strs) :
    (Answer.unordered strs).Encodes (reply_array r) := ⟨_, h, reply_array_eq r⟩

/-! ## Hashes -/

/-- The stores that stand for a key space in which the key has this type. -/
def MeansAt (mc : Machine) (key : CStr) (type : ItemType) (ht : HashTable) (db : Keyspace) : Prop :=
  Means mc ht db ∧ TypedAt ht key type

/-- The pairs of `HSET` are set one after the other, and a missing key is a hash from
    the first on. -/
theorem hset_follows (mc : Machine) : Follows mc .HSET := by
  refine follows_typed .HASH_T rfl rfl rfl (fun ht db key args hm htyped _ hlands => ?_)
  refine count_oks_realizes (R := MeansAt mc key .HASH_T) (fun _ _ hR => hR.1) (fun ht db b hR hl => ?_)
    ⟨hm, htyped⟩ hlands
  exact (htable_hset_means hR.1 hR.2 hl).mono (fun r hr => ⟨⟨hr.1.1, hr.2⟩, hr.1.2⟩)

/-- The fields of `HDEL` go one after the other, and the hash with the last of them. -/
theorem hdel_follows (mc : Machine) : Follows mc .HDEL := by
  refine follows_typed .HASH_T rfl rfl rfl (fun ht db key args hm htyped _ hlands => ?_)
  refine count_oks_realizes (R := MeansAt mc key .HASH_T) (fun _ _ hR => hR.1)
    (fun ht db field hR hl => ?_)
    ⟨hm, htyped⟩ hlands
  exact (htable_hdel_means hR.1 hR.2 hl).mono (fun r hr => ⟨⟨hr.1.1, hr.2⟩, hr.1.2⟩)

theorem hget_follows (mc : Machine) : Follows mc .HGET := by
  refine follows_typed .HASH_T rfl rfl rfl (fun ht db key args hm htyped hargc _ => ?_)
  obtain ⟨field, rfl⟩ := one_argument hargc
  exact hm.answer_read (htable_hget_means hm htyped field) (fun r hr => congrArg reply_string hr)

/-- `HEXISTS` reads the field, and only tells whether it is there. -/
theorem hexists_follows (mc : Machine) : Follows mc .HEXISTS := by
  refine follows_typed .HASH_T rfl rfl rfl (fun ht db key args hm htyped hargc _ => ?_)
  obtain ⟨field, rfl⟩ := one_argument hargc
  change Realizes mc (htable_hget mc ht key field >>= _) _
  refine Realizes.bind (htable_hget_means hm htyped field) (fun r hr => hm.answer ?_)
  change reply_integer _ =
    reply_integer (if ((Datum.bindings (db key)).lookup field).isSome then 1 else 0)
  rw [← hr]
  cases r <;> rfl

/-- The pairs come in the order of the table, each field before its value. -/
theorem hgetall_follows (mc : Machine) : Follows mc .HGETALL := by
  refine follows_typed .HASH_T rfl rfl rfl (fun ht db key args hm htyped _ _ => ?_)
  refine hm.answer_read (htable_hgetall_means hm htyped) ?_
  rintro r ⟨l, hl, hr⟩
  exact ⟨l, hl, by rw [reply_array_eq, hr]⟩

theorem hkeys_follows (mc : Machine) : Follows mc .HKEYS := by
  refine follows_typed .HASH_T rfl rfl rfl (fun ht db key args hm htyped _ _ => ?_)
  exact hm.answer_read (htable_hkeyvals_means hm htyped true) (fun r hr => encodes_unordered hr)

theorem hvals_follows (mc : Machine) : Follows mc .HVALS := by
  refine follows_typed .HASH_T rfl rfl rfl (fun ht db key args hm htyped _ _ => ?_)
  exact hm.answer_read (htable_hkeyvals_means hm htyped false) (fun r hr => encodes_unordered hr)

/-- The counter of a stored hash is the number of its bindings. -/
theorem hlen_follows (mc : Machine) : Follows mc .HLEN := by
  refine follows_typed .HASH_T rfl rfl rfl (fun ht db key args hm htyped _ _ => ?_)
  exact hm.answer_read (htable_hlen_means hm htyped) (fun n hn => congrArg reply_integer hn)

/-- A missing hash gives the empty array, where a missing field gives nil. -/
theorem hmget_follows (mc : Machine) : Follows mc .HMGET := by
  refine follows_typed .HASH_T rfl rfl rfl (fun ht db key args hm htyped _ _ => ?_)
  refine Realizes.bind (htable_exists_means hm) ?_
  rintro found rfl
  change Realizes mc _ (some (.array (if (db key).isSome then _ else [])), db)
  cases (db key).isSome with
  | true =>
    have hread : Ensures (IndexFault mc) (args.mapM (htable_hget mc ht key))
        (fun rs => rs = args.map fun field => (Datum.bindings (db key)).lookup field) :=
      Ensures.mapM_eq _ (fun field _ => htable_hget_means hm htyped field)
    exact hm.answer_read hread (fun rs hrs => congrArg reply_array_n hrs)
  | false => exact hm.answer rfl

/-! ## Lists -/

/-- What the loop of a push keeps of the lengths. -/
theorem foldl_last (l : List Int) (x : Int) : l.foldl (fun _ y => y) x = l.getLastD x := by
  induction l generalizing x with
  | nil => rfl
  | cons y l ih => rw [List.foldl_cons, ih, List.getLastD_cons]

/-- `LPUSH` and `RPUSH` push their values one after the other, and answer with the
    last length. -/
theorem push_realizes {dir : ListDirection} {ht : HashTable} {db : Keyspace} {key : CStr}
    (hm : Means mc ht db)
    (htyped : TypedAt ht key .LIST_T) {values : List CStr}
    (hlands : meets (fun ht value => Prod.fst <$> htable_push mc ht key value dir)
      (fun ht value => push_lands mc ht dir key value) ht values) :
    Realizes mc (do
        let (len, ht) ← values.foldlM (fun (_, ht) value => do
          let (ht, len) ← htable_push mc ht key value dir
          return (len, ht)) (0, ht)
        return (reply_integer len, ht))
      (((each (Keyspace.push dir key) values).map fun lens => some (.int (lens.getLastD 0))) db) := by
  have hop : ∀ ht db value, MeansAt mc key .LIST_T ht db → push_lands mc ht dir key value →
      Ensures (IndexFault mc) (htable_push mc ht key value dir) (fun r =>
        MeansAt mc key .LIST_T r.1 (Keyspace.push dir key value db).2 ∧
          r.2 = (Keyspace.push dir key value db).1) :=
    fun ht db value hR hl => (htable_push_means hR.1 hR.2 hl).mono (fun r hr => ⟨⟨hr.1.1, hr.2⟩, hr.1.2⟩)
  refine (foldlM_each (g := fun _ len => len) (fun _ _ _ => rfl) hop values 0 ⟨hm, htyped⟩ hlands).bind ?_
  rintro ⟨len, ht'⟩ ⟨hmeans, hlen⟩
  refine ⟨?_, hmeans.1⟩
  change reply_integer len = reply_integer _
  rw [show len = _ from hlen, foldl_last]

theorem lpush_follows (mc : Machine) : Follows mc .LPUSH := by
  refine follows_typed .LIST_T rfl rfl rfl (fun ht db key args hm htyped _ hlands => ?_)
  exact push_realizes hm htyped hlands

theorem rpush_follows (mc : Machine) : Follows mc .RPUSH := by
  refine follows_typed .LIST_T rfl rfl rfl (fun ht db key args hm htyped _ hlands => ?_)
  exact push_realizes hm htyped hlands

/-- A pop of a missing list answers nil; the key goes with the last element. -/
theorem lpop_follows (mc : Machine) : Follows mc .LPOP := by
  refine follows_typed .LIST_T rfl rfl rfl (fun ht db key args hm htyped _ hlands => ?_)
  refine (htable_pop_means hm htyped hlands).bind ?_
  rintro r ⟨⟨hmeans, hres⟩, _⟩
  exact ⟨congrArg reply_string hres, hmeans⟩

theorem rpop_follows (mc : Machine) : Follows mc .RPOP := by
  refine follows_typed .LIST_T rfl rfl rfl (fun ht db key args hm htyped _ hlands => ?_)
  refine (htable_pop_means hm htyped hlands).bind ?_
  rintro r ⟨⟨hmeans, hres⟩, _⟩
  exact ⟨congrArg reply_string hres, hmeans⟩

theorem llen_follows (mc : Machine) : Follows mc .LLEN := by
  refine follows_typed .LIST_T rfl rfl rfl (fun ht db key args hm htyped _ _ => ?_)
  exact hm.answer_read (htable_llen_means hm htyped) (fun n hn => congrArg reply_integer hn)

/-- The first place of the value counts; a value that is not there gives nil, not -1. -/
theorem lpos_follows (mc : Machine) : Follows mc .LPOS := by
  refine follows_typed .LIST_T rfl rfl rfl (fun ht db key args hm htyped hargc _ => ?_)
  obtain ⟨value, rfl⟩ := one_argument hargc
  change Realizes mc (htable_lpos mc ht key value >>= _)
    (some (if (Datum.values (db key)).contains value then
    .int ((Datum.values (db key)).idxOf value) else .bulk none), db)
  refine Realizes.bind (htable_lpos_means hm htyped value) ?_
  rintro n rfl
  by_cases hmem : value ∈ Datum.values (db key)
  · rw [if_pos hmem, if_pos (List.contains_iff_mem.mpr hmem)]
    exact hm.answer (if_neg (by omega))
  · rw [if_neg hmem, if_neg (fun hin => hmem (List.contains_iff_mem.mp hin))]
    exact hm.answer rfl

/-- An index that an argument gives, as the check of the handlers leaves it. -/
theorem check_id_means {ht : HashTable} {db : Keyspace} {key : CStr} (hm : Means mc ht db)
    (htyped : TypedAt ht key .LIST_T) (i : Int) :
    Ensures (IndexFault mc) (htable_check_id mc ht key i) (fun r =>
      (db key = none ∧ r = (-1, i)) ∨
      ∃ l, db key = some (.list l) ∧ l ≠ [] ∧ StoredList ht key l ∧
        r = (if InRange l i then 1 else 0, normalised l.length i)) := by
  refine ensures_of_missed ((htable_check_id_spec hm.ok htyped i).mono ?_)
  intro r hr
  rcases hm.values_cases hr with hmissing | ⟨l, hd, hne, hstored, hid, hcode⟩
  · exact Or.inl hmissing
  · exact Or.inr ⟨l, hd, hne, hstored, Prod.ext hcode hid⟩

/-- What is no number, and what lies outside the list, is refused in the same words;
    a missing list gives nil. -/
theorem lindex_follows (mc : Machine) : Follows mc .LINDEX := by
  refine follows_typed .LIST_T rfl rfl rfl (fun ht db key args hm htyped hargc _ => ?_)
  obtain ⟨index, rfl⟩ := one_argument hargc
  change Realizes mc (if is_number index then _ else .ok (reply_err_intid, ht))
    (some ((Keyspace.number index).elim .notInteger (Keyspace.elementAt (Datum.values (db key)))), db)
  unfold Keyspace.number
  cases hnum : is_number index with
  | false => exact hm.answer rfl
  | true =>
    simp only [if_true, Option.elim_some]
    refine Realizes.bind (check_id_means hm htyped (strtoi index)) ?_
    rintro r (⟨hd, rfl⟩ | ⟨l, hd, hne, hstored, rfl⟩)
    · rw [hd]
      exact hm.answer rfl
    · rw [hd]
      unfold Keyspace.elementAt
      rw [Datum.values, if_neg hne]
      by_cases hin : InRange l (strtoi index)
      · rw [if_pos hin, if_pos hin]
        refine Realizes.bind (ensures_of_missed (htable_lindex_spec hm.ok htyped _)) ?_
        rintro r (⟨habsent, _⟩ | ⟨values, hstored', rfl⟩)
        · exact absurd habsent hstored.not_absent
        · cases hstored.unique hm.ok.table hstored'
          exact hm.answer rfl
      · rw [if_neg hin, if_neg hin]
        exact hm.answer rfl

/-- As with `LINDEX`, and a missing list stays missing. -/
theorem lset_follows (mc : Machine) : Follows mc .LSET := by
  refine follows_typed .LIST_T rfl rfl rfl (fun ht db key args hm htyped hargc _ => ?_)
  obtain ⟨index, value, rfl⟩ := two_arguments hargc
  change Realizes mc (if is_number index then _ else .ok (reply_err_intid, ht))
    ((Keyspace.number index).elim (ask fun _ => some .notInteger)
      (fun i => focus key (Keyspace.changeAt i value)) db)
  unfold Keyspace.number
  cases hnum : is_number index with
  | false => exact hm.answer rfl
  | true =>
    simp only [if_true, Option.elim_some]
    refine Realizes.bind (check_id_means hm htyped (strtoi index)) ?_
    rintro r (⟨hd, rfl⟩ | ⟨l, hd, hne, hstored, rfl⟩)
    · have hmissing : focus key (Keyspace.changeAt (strtoi index) value) db =
          (some (.bulk none), db) := by
        simp only [focus, Keyspace.changeAt, hd, Datum.values, if_true]
        rw [← hd, Function.update_eq_self]
      rw [hmissing]
      change Realizes mc (htable_lset mc ht key (strtoi index) value >>= _) _
      refine Realizes.bind (htable_lset_means hm htyped (strtoi index)) ?_
      rintro r ⟨⟨hmeans, _⟩, _⟩
      have hsame : (Keyspace.lset key (strtoi index) value db).2 = db := by
        simp only [Keyspace.lset, focus, hd, Datum.values, List.set_nil, Datum.ofValues, if_true]
        rw [← hd, Function.update_eq_self]
      rw [hsame] at hmeans
      exact hmeans.answer rfl
    · by_cases hin : InRange l (strtoi index)
      · have hset : focus key (Keyspace.changeAt (strtoi index) value) db =
            (some .ok, (Keyspace.lset key (normalised l.length (strtoi index)) value db).2) := by
          simp only [focus, Keyspace.changeAt, Keyspace.lset, hd, Datum.values, if_neg hne, if_pos hin]
        rw [hset, if_pos hin]
        change Realizes mc (htable_lset mc ht key (normalised l.length (strtoi index)) value >>= _) _
        refine Realizes.bind (htable_lset_means hm htyped _) ?_
        rintro r ⟨⟨hmeans, _⟩, _⟩
        exact hmeans.answer rfl
      · have hrefused : focus key (Keyspace.changeAt (strtoi index) value) db =
            (some .notInteger, db) := by
          simp only [focus, Keyspace.changeAt, hd, Datum.values, if_neg hne, if_neg hin]
          rw [← hd, Function.update_eq_self]
        rw [hrefused, if_neg hin]
        exact hm.answer rfl

/-- `LREM` answers how many went, and the key goes with the last element. -/
theorem lrem_follows (mc : Machine) : Follows mc .LREM := by
  refine follows_typed .LIST_T rfl rfl rfl (fun ht db key args hm htyped hargc hlands => ?_)
  obtain ⟨count, value, rfl⟩ := two_arguments hargc
  change Realizes mc (if is_number count then _ else .ok (reply_err_intid, ht))
    ((Keyspace.number count).elim (ask fun _ => some .notInteger)
      (fun n => (Keyspace.lrem key n value).map fun n => some (.int n)) db)
  unfold Keyspace.number
  cases hnum : is_number count with
  | false => exact hm.answer rfl
  | true =>
    have hl : lrem_lands mc ht key (strtoi count) value := by
      rcases Bool.or_eq_true_iff.mp hlands with hnot | hl
      · have hnumber : (!is_number count) = true := hnot
        rw [hnum] at hnumber
        cases hnumber
      · exact hl
    simp only [if_true, Option.elim_some]
    change Realizes mc (htable_lrem mc ht key (strtoi count) value >>= _) _
    refine Realizes.bind (htable_lrem_means hm htyped hl) ?_
    rintro r ⟨⟨hmeans, hres⟩, _⟩
    exact hmeans.answer (congrArg reply_integer hres)

/-- Both ends have to lie in the list, in this order; a missing list is read as the
    empty array. -/
theorem lrange_follows (mc : Machine) : Follows mc .LRANGE := by
  refine follows_typed .LIST_T rfl rfl rfl (fun ht db key args hm htyped hargc _ => ?_)
  obtain ⟨bgn, stop, rfl⟩ := two_arguments hargc
  change Realizes mc (if is_number bgn && is_number stop then _ else .ok (reply_err_intid, ht))
    (some ((Keyspace.number bgn).elim .notInteger fun a =>
      (Keyspace.number stop).elim .notInteger fun b =>
      Keyspace.elementsBetween (Datum.values (db key)) a b), db)
  unfold Keyspace.number
  cases hbgn : is_number bgn with
  | false => exact hm.answer rfl
  | true =>
    cases hstop : is_number stop with
    | false => exact hm.answer rfl
    | true =>
      simp only [Bool.and_self, if_true, Option.elim_some]
      refine Realizes.bind
        (ensures_of_missed (htable_check_ids_spec hm.ok htyped (strtoi bgn) (strtoi stop))) ?_
      intro r hr
      rcases hm.values_cases hr with ⟨hd, rfl⟩ | ⟨l, hd, hne, hstored, hids, hcode⟩
      · rw [hd]
        exact hm.answer rfl
      · obtain ⟨code, a, b⟩ := r
        cases hids
        rw [hd]
        unfold Keyspace.elementsBetween
        rw [Datum.values, if_neg hne]
        by_cases hin : InRange l (strtoi bgn) ∧ InRange l (strtoi stop) ∧
            normalised l.length (strtoi bgn) ≤ normalised l.length (strtoi stop)
        · obtain ⟨⟨hlow, _⟩, ⟨_, hhigh⟩, hle⟩ := id hin
          rw [if_pos ⟨hle, hlow, hhigh⟩] at hcode
          cases hcode
          rw [if_pos hin]
          refine Realizes.bind
            (ensures_of_missed (htable_lrange_spec hm.ok htyped hstored hlow hle hhigh)) ?_
          rintro r rfl
          exact hm.answer (reply_array_eq _)
        · have hrefused : ¬ (normalised l.length (strtoi bgn) ≤ normalised l.length (strtoi stop) ∧
              0 ≤ normalised l.length (strtoi bgn) ∧ normalised l.length (strtoi stop) < l.length) := by
            rintro ⟨hle, hlow, hhigh⟩
            exact hin ⟨⟨hlow, lt_of_le_of_lt hle hhigh⟩, ⟨le_trans hlow hle, hhigh⟩, hle⟩
          rw [if_neg hrefused] at hcode
          cases hcode
          rw [if_neg hin]
          exact hm.answer rfl

/-! ## Sets -/

/-- Each member that is new counts, as long as none is stored a second time. -/
theorem sadd_follows (mc : Machine) : Follows mc .SADD := by
  refine follows_typed .SET_T rfl rfl rfl (fun ht db key args hm htyped _ hlands => ?_)
  refine count_oks_realizes (R := MeansAt mc key .SET_T) (fun _ _ hR => hR.1)
    (fun ht db member hR hl => ?_)
    ⟨hm, htyped⟩ hlands
  exact (htable_sadd_means hR.1 hR.2 hl).mono (fun r hr => ⟨⟨hr.1.1, hr.2⟩, hr.1.2⟩)

/-- Each member that was there counts, and the set goes with the last of them. -/
theorem srem_follows (mc : Machine) : Follows mc .SREM := by
  refine follows_typed .SET_T rfl rfl rfl (fun ht db key args hm htyped _ hlands => ?_)
  refine count_oks_realizes (R := MeansAt mc key .SET_T) (fun _ _ hR => hR.1)
    (fun ht db member hR hl => ?_)
    ⟨hm, htyped⟩ hlands
  exact (htable_srem_means hR.1 hR.2 hl).mono (fun r hr => ⟨⟨hr.1.1, hr.2⟩, hr.1.2⟩)

theorem sismember_follows (mc : Machine) : Follows mc .SISMEMBER := by
  refine follows_typed .SET_T rfl rfl rfl (fun ht db key args hm htyped hargc _ => ?_)
  obtain ⟨value, rfl⟩ := one_argument hargc
  change Realizes mc (htable_sismember mc ht key value >>= _) _
  refine Realizes.bind (htable_sismember_means hm htyped value) ?_
  rintro b rfl
  refine hm.answer ?_
  change reply_integer _ = reply_integer (if value ∈ Datum.members (db key) then 1 else 0)
  by_cases hmem : value ∈ Datum.members (db key)
  · rw [if_pos hmem, decide_eq_true hmem]
    rfl
  · rw [if_neg hmem, decide_eq_false hmem]
    rfl

/-- The members come in the order of the table. -/
theorem smembers_follows (mc : Machine) : Follows mc .SMEMBERS := by
  refine follows_typed .SET_T rfl rfl rfl (fun ht db key args hm htyped _ _ => ?_)
  exact hm.answer_read (htable_smembers_means hm htyped) (fun r hr => encodes_unordered hr)

/-- A missing set gives the empty array, where a missing member gives 0. -/
theorem smismember_follows (mc : Machine) : Follows mc .SMISMEMBER := by
  refine follows_typed .SET_T rfl rfl rfl (fun ht db key args hm htyped _ _ => ?_)
  refine Realizes.bind (htable_exists_means hm) ?_
  rintro found rfl
  change Realizes mc _ (some (.array (if (db key).isSome then _ else [])), db)
  cases (db key).isSome with
  | true =>
    refine Realizes.bind (Ensures.mapM_eq args (g := fun m =>
      some (intostr (if m ∈ Datum.members (db key) then 1 else 0))) (fun m _ => ?_))
      (fun rs hrs => hm.answer (congrArg reply_array_n hrs))
    refine (htable_sismember_means hm htyped m).bind ?_
    rintro b rfl
    by_cases hmem : m ∈ Datum.members (db key)
    · rw [if_pos hmem, decide_eq_true hmem]
      rfl
    · rw [if_neg hmem, decide_eq_false hmem]
      rfl
  | false => exact hm.answer rfl

end hyperkv
