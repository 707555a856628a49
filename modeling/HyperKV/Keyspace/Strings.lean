import HyperKV.Keyspace.Commands

open Outcome OpenAddressing KeyedStore

namespace hyperkv

variable {mc : Machine} {ht : HashTable} {key : CStr} {db : Keyspace}

/-! ## Keys of any type -/

theorem del_follows (mc : Machine) : Follows mc .DEL := by
  refine follows_untyped rfl rfl (fun ht db argv hm _ hlands => ?_)
  refine count_oks_realizes (R := Means mc) (fun _ _ hR => hR) ?_ hm hlands
  exact fun ht db key hm hl => htable_del_means hm hl

theorem exists_follows (mc : Machine) : Follows mc .EXISTS := by
  refine follows_untyped rfl rfl (fun ht db argv hm _ _ => ?_)
  refine count_oks_realizes (R := Means mc) (fun _ _ hR => hR) (fun ht db key hm _ => ?_) hm
    (meets_true argv ht)
  exact (htable_exists_means hm).bind (fun b hb => ⟨hm, hb⟩)

theorem type_follows (mc : Machine) : Follows mc .TYPE := by
  refine follows_untyped rfl rfl (fun ht db argv hm hargc _ => ?_)
  obtain ⟨key, rfl⟩ := List.length_eq_one_iff.mp (of_decide_eq_true hargc)
  exact hm.answer_read (htable_type_means hm) (fun name hname => by rw [hname]; rfl)

/-! ## Strings -/

/-- The landing of the key of a string that is there does not depend on its text. -/
theorem htable_lands_present {text : CStr} (hpresent : ¬ Absent ht key) :
    htable_lands mc ht (.set key text) := by
  have hmem : ∃ item ∈ ht.items, item.key = key := by
    by_contra hnone
    exact hpresent (fun item hmem hkey => hnone ⟨item, hmem, hkey⟩)
  obtain ⟨item, hmem, hkey⟩ := hmem
  rw [htable_lands, Bool.or_eq_true]
  exact Or.inl (List.any_eq_true.mpr ⟨item, hmem, decide_eq_true hkey⟩)

/-- Storing a text under a key that takes one. -/
theorem Means.store_text (hm : Means mc ht db) (hfits : Datum.fits .STR_T (db key)) {text : CStr}
    (hlands : htable_lands mc ht (.set key text)) :
    Ensures (IndexFault mc) (htable_set mc ht key text)
      (fun r => Means mc r.1 (Function.update db key (some (.string text)))) := by
  refine (htable_set_means hm hlands).mono ?_
  rintro r ⟨hmeans, _⟩
  have hset : (Keyspace.set key text db).2 = Function.update db key (some (.string text)) := by
    simp only [Keyspace.set, focus, if_pos hfits]
  rwa [hset] at hmeans

theorem Means.not_absent (hm : Means mc ht db) {d : Datum} (hd : db key = some d) : ¬ Absent ht key := by
  intro habsent
  rw [hm.absent habsent] at hd
  cases hd

theorem set_follows (mc : Machine) : Follows mc .SET := by
  refine follows_untyped rfl rfl (fun ht db argv hm hargc hlands => ?_)
  match argv, hargc with
  | [], _ => exact hm.answer rfl
  | [key], _ =>
    refine Realizes.bind (P := fun ht' => Means mc ht' (Keyspace.set key [] db).2) (Ensures.map ?_)
      (fun ht' hm' => hm'.answer rfl)
    exact (htable_set_means hm hlands).mono (fun _ hr => hr.1)
  | [key, value], _ =>
    refine Realizes.bind (P := fun ht' => Means mc ht' (Keyspace.set key value db).2) (Ensures.map ?_)
      (fun ht' hm' => hm'.answer rfl)
    exact (htable_set_means hm hlands).mono (fun _ hr => hr.1)
  | _ :: _ :: _ :: _, hargc => simp [CommandType.accepts] at hargc

theorem mset_follows (mc : Machine) : Follows mc .MSET := by
  refine follows_untyped rfl rfl (fun ht db argv hm _ hlands => ?_)
  refine Realizes.bind (Ensures.simulate (Means mc) (fun db b => (Keyspace.set b.1 b.2 db).2)
    (fun ht db b hm hl => Ensures.map ((htable_set_means hm hl).mono (fun _ hr => hr.1)))
      (pairs argv) ht db hm
    hlands) (fun ht' hm' => ?_)
  have hfold : ∀ (l : List (CStr × CStr)) (db : Keyspace),
      (each (fun b => Keyspace.set b.1 b.2) l db).2 =
        l.foldl (fun db b => (Keyspace.set b.1 b.2 db).2) db := by
    intro l
    induction l with
    | nil => exact fun _ => rfl
    | cons b l ih => exact fun db => ih _
  rw [← hfold] at hm'
  exact hm'.answer rfl

theorem get_follows (mc : Machine) : Follows mc .GET := by
  refine follows_typed .STR_T rfl rfl rfl (fun ht db key args hm htyped _ _ => ?_)
  exact hm.answer_read (htable_get_means hm htyped) (fun r hr => congrArg reply_string hr)

theorem strlen_follows (mc : Machine) : Follows mc .STRLEN := by
  refine follows_typed .STR_T rfl rfl rfl (fun ht db key args hm htyped _ _ => ?_)
  exact hm.answer_read (htable_get_means hm htyped) (fun r hr => by rw [hr]; rfl)

/-- What is read as a string under a key is what is told of it. -/
theorem Means.admits (hm : Means mc ht db) {str : Option CStr} (h : ReadAt ht key str) :
    (Datum.told (db key)).Admits str := by
  rw [Datum.told]
  rcases h with hstring | ⟨hother, htext⟩
  · rw [if_pos ((hm.typedAt_iff .STR_T).mp (hstring.typedAt hm.ok))]
    exact hm.text_at hstring
  · rw [if_neg (fun hfits => hother ((hm.typedAt_iff .STR_T).mpr hfits))]
    exact htext

/-- Only the first key's type is checked. -/
theorem mget_follows (hcast : mc.cast ≠ none) : Follows mc .MGET := by
  refine follows_typed .STR_T rfl rfl rfl (fun ht db key args hm _ _ _ => ?_)
  have hread : ∀ k ∈ key :: args, Ensures (IndexFault mc) (htable_get mc ht k)
      (fun str => (Datum.told (db k)).Admits str) := by
    refine fun k _ => ((htable_get_any hm.ok k).tolerate ?_).mono (fun str => hm.admits)
    rintro e (hindex | ⟨_, hnone, _⟩)
    · exact hindex
    · exact absurd hnone hcast
  exact hm.answer_read (Ensures.mapM (key :: args) hread)
    (fun strs hstrs => ⟨strs, List.forall₂_map_left_iff.mpr hstrs, rfl⟩)

/-! ## Counters -/

/-- What the counters do with the value found, where a number is to be stored. -/
theorem counter_realizes (hm : Means mc ht db) (htyped : TypedAt ht key .STR_T) {missing : Int}
    {change : Int → Int} (hlands : htable_lands mc ht (.set key (intostr missing)))
    {next : Option CStr → Exec (CStr × HashTable)}
    (hnone : next none = do
      let (ht, _) ← htable_set mc ht key (intostr missing)
      return (reply_integer missing, ht))
    (hnumber : ∀ text, is_number text = true → next (some text) = do
      let (ht, _) ← htable_set mc ht key (intostr (int32 (change (strtoi text))))
      return (reply_integer (int32 (change (strtoi text))), ht))
    (hother : ∀ text, is_number text = false → next (some text) = .ok (reply_err_intid, ht)) :
    Realizes mc (htable_get mc ht key >>= next) (focus key (Keyspace.counter missing change) db) := by
  have hfits := (hm.typedAt_iff .STR_T).mp htyped
  refine Realizes.bind (htable_get_means hm htyped) ?_
  rintro r rfl
  cases hd : db key with
  | none =>
    have hfocus : focus key (Keyspace.counter missing change) db =
        (some (.int missing), Function.update db key (some (.string (intostr missing)))) := by
      rw [focus, hd]
      rfl
    rw [hfocus]
    change Realizes mc (next none) _
    rw [hnone]
    exact Realizes.bind (hm.store_text hfits hlands) (fun r hr => hr.answer rfl)
  | some d =>
    cases d with
    | string text =>
      have hpresent := hm.not_absent hd
      change Realizes mc (next (some text)) _
      cases hnum : is_number text with
      | true =>
        have hfocus : focus key (Keyspace.counter missing change) db =
            (some (.int (int32 (change (strtoi text)))),
              Function.update db key (some (.string (intostr (int32 (change (strtoi text))))))) := by
          rw [focus, hd]
          simp only [Keyspace.counter, Datum.text, Keyspace.number, hnum, if_true]
        rw [hfocus, hnumber text hnum]
        exact Realizes.bind (hm.store_text hfits (htable_lands_present hpresent))
          (fun r hr => hr.answer rfl)
      | false =>
        have hfocus : focus key (Keyspace.counter missing change) db = (some .notInteger, db) := by
          rw [focus, hd]
          simp only [Keyspace.counter, Datum.text, Keyspace.number, hnum, Bool.false_eq_true, if_false]
          rw [← hd, Function.update_eq_self]
        rw [hfocus, hother text hnum]
        exact hm.answer rfl
    | _ =>
      rw [hd] at hfits
      cases hfits

theorem incr_follows (mc : Machine) : Follows mc .INCR := by
  refine follows_typed .STR_T rfl rfl rfl (fun ht db key args hm htyped _ hlands => ?_)
  have hone : cstr "1" = intostr 1 := by decide
  have hl : htable_lands mc ht (.set key (cstr "1")) := hlands
  rw [hone] at hl
  refine counter_realizes hm htyped hl (by rw [← hone]) (fun text h => ?_) (fun text h => ?_)
  · exact if_pos h
  · exact if_neg (by rw [h]; exact Bool.false_ne_true)

theorem decr_follows (mc : Machine) : Follows mc .DECR := by
  refine follows_typed .STR_T rfl rfl rfl (fun ht db key args hm htyped _ hlands => ?_)
  have hone : cstr "-1" = intostr (-1) := by decide
  have hl : htable_lands mc ht (.set key (cstr "-1")) := hlands
  rw [hone] at hl
  refine counter_realizes hm htyped hl (by rw [← hone]) (fun text h => ?_) (fun text h => ?_)
  · exact if_pos h
  · exact if_neg (by rw [h]; exact Bool.false_ne_true)

/-- `INCRBY` and `DECRBY`: an operand that is no number brings the server down
    when there is no value to look at first. -/
theorem stepby_follows {type : CommandType} (combine : Int → Int → Int)
    (hfns : fns mc type = exec_stepby mc combine) (htype : type.key_type = some .STR_T)
    (haccepts : type.accepts = fun argc => argc = 2) (hexpected : type.expected = "2")
    (hlands : ∀ ht, type.lands mc ht = CommandType.INCRBY.lands mc ht)
    (happly : ∀ key args,
      Keyspace.apply type (key :: args) = focus key (Keyspace.counterby combine (args.headD []))) :
    Follows mc type := by
  rw [exec_stepby, ← haccepts, ← hexpected] at hfns
  refine follows_typed .STR_T hfns htype rfl (fun ht db key args hm htyped hargc hl => ?_)
  rw [haccepts] at hargc
  obtain ⟨operand, rfl⟩ := List.length_eq_one_iff.mp (Nat.succ.inj (of_decide_eq_true hargc))
  rw [happly]
  rw [hlands] at hl
  change Realizes mc (htable_get mc ht key >>= _) (focus key (Keyspace.counterby combine operand) db)
  cases hnum : is_number operand with
  | true =>
    have hset : htable_lands mc ht (.set key (intostr (strtoi operand))) := by
      rcases Bool.or_eq_true_iff.mp hl with hnot | hset
      · have hnumber : (!is_number operand) = true := hnot
        rw [hnum] at hnumber
        cases hnumber
      · exact hset
    have hcounter : Keyspace.counterby combine operand =
        Keyspace.counter (strtoi operand) (combine · (strtoi operand)) := by
      funext d
      simp only [Keyspace.counterby, Keyspace.number, hnum, if_true]
    rw [hcounter]
    refine counter_realizes hm htyped hset ?_ (fun text h => ?_) (fun text h => ?_)
    · simp only [Command.arg, List.getElem?_cons_succ, List.getElem?_cons_zero, ok_bind,
        Option.isNone_none,
        hnum, Bool.and_self, if_true]
    · simp only [Command.arg, List.getElem?_cons_succ, List.getElem?_cons_zero, ok_bind,
        Option.isNone_some,
        Bool.false_and, Bool.false_eq_true, if_false, deref, h, hnum, Bool.and_self, if_true]
    · simp only [Command.arg, List.getElem?_cons_succ, List.getElem?_cons_zero, ok_bind,
        Option.isNone_some,
        Bool.false_and, Bool.false_eq_true, if_false, deref, h]
      rfl
  | false =>
    have hsame : (focus key (Keyspace.counterby combine operand) db) =
        (if (Datum.text (db key)).isNone then none else some .notInteger, db) := by
      simp only [focus, Keyspace.counterby, Keyspace.number, hnum, Bool.false_eq_true, if_false,
        Function.update_eq_self]
    rw [hsame]
    refine Realizes.bind (htable_get_means hm htyped) ?_
    rintro r rfl
    simp only [Command.arg, List.getElem?_cons_succ, List.getElem?_cons_zero, ok_bind, hnum,
      Bool.and_false,
      Bool.false_eq_true, if_false]
    cases Datum.text (db key) with
    | none => exact trivial
    | some text => exact hm.answer rfl

theorem incrby_follows (mc : Machine) : Follows mc .INCRBY := by
  refine stepby_follows (· + ·) rfl rfl rfl rfl ?_ ?_
  · exact fun _ => rfl
  · exact fun _ _ => rfl

theorem decrby_follows (mc : Machine) : Follows mc .DECRBY := by
  refine stepby_follows (· - ·) rfl rfl rfl rfl ?_ ?_
  · exact fun _ => rfl
  · exact fun _ _ => rfl

end hyperkv
