import HyperKV.Htable
import HyperKV.OpenAddressing.Every

open Outcome OpenAddressing

namespace hyperkv

variable {mc : Machine} {ht : HashTable} {key : CStr} {V W : Value → Prop}

/-! ## Items -/

theorem htable_search_every {Q : HashTableItem Value → Prop} (h : ht.Every Q) (key : CStr) :
    Ensures AnyFault (htable_search mc ht key) (fun r => ∀ found, r = some found → Q found.2) :=
  fromTable_any (Scheme.search_every h key)

/-- Finding an item to go on with, or none. -/
theorem search_any {α : Type} {Q : HashTableItem Value → Prop} {missing : Exec α}
    {read : Nat → HashTableItem Value → Exec α} {R : α → Prop} (h : ht.Every Q)
    (hmissing : Ensures AnyFault missing R) (hread : ∀ p item, Q item → Ensures AnyFault (read p item) R) :
    Ensures AnyFault (do match ← htable_search mc ht key with
      | none => missing
      | some (p, item) => read p item) R := by
  refine (htable_search_every h key).bind (fun r hr => ?_)
  cases r with
  | none => exact hmissing
  | some found => exact hread found.1 found.2 (hr found rfl)

theorem htable_insert_every {Q : HashTableItem Value → Prop} (h : ht.Every Q) {type : ItemType}
    {value : Value} (hitem : Q ⟨type, key, value⟩) :
    Ensures AnyFault (htable_insert mc ht type key value) (Table.Every Q) :=
  Ensures.map (fromTable_any (Scheme.insert_every 1 ht _ h hitem))

theorem htable_del_every {Q : HashTableItem Value → Prop} (h : ht.Every Q) (key : CStr) :
    Ensures AnyFault (htable_del mc ht key) (fun r => r.1.Every Q) :=
  fromTable_any (Scheme.remove_every 1 h key)

theorem htable_set_every {Q : HashTableItem Value → Prop} (h : ht.Every Q) {value : CStr}
    (hitem : Q ⟨.STR_T, key, .str value⟩) :
    Ensures AnyFault (htable_set mc ht key value) (fun r => r.1.Every Q) := by
  unfold htable_set
  apply search_any h
  · exact (htable_insert_every h hitem).bind (fun ht' hht' => hht')
  · intro p item _
    split
    · exact h
    · refine Ensures.bind (P := Table.Every Q) ?_ (fun ht' hht' => hht')
      unfold htable_update_str
      apply search_any h
      · exact h
      · exact fun p item _ => h.write_live hitem

/-! ## Values -/

/-- Every value of the store satisfies `V`. -/
def Values (V : Value → Prop) (ht : HashTable) : Prop := ht.Every (fun item => V item.value)

theorem values_init (size : Int) : Values V (htable_init size) := Table.every_empty _

theorem Values.mono (h : Values V ht) (hVW : ∀ value, V value → W value) : Values W ht :=
  fun item hmem => hVW item.value (h item hmem)

/-- Changing the value behind an item. -/
theorem Values.set_value (h : Values V ht) (p : Nat) (item : HashTableItem Value) {value : Value}
    (hvalue : V value) : Values V (item.set_value ht p value) :=
  h.write_live hvalue

/-! Reading a container at its type keeps what is known of it. -/

theorem asHash_any {value : Value} (h : V value) : Ensures AnyFault value.asHash (fun t => V (.hash t)) := by
  cases value with
  | hash t => exact h
  | _ => exact ensures_error.mpr trivial

theorem asList_any {value : Value} (h : V value) : Ensures AnyFault value.asList (fun ls => V (.list ls)) := by
  cases value with
  | list ls => exact h
  | _ => exact ensures_error.mpr trivial

theorem asSet_any {value : Value} (h : V value) : Ensures AnyFault value.asSet (fun st => V (.set st)) := by
  cases value with
  | set st => exact h
  | _ => exact ensures_error.mpr trivial

/-- The end of every removal from a container. -/
theorem drop_empty_values {α : Type} (h : Values V ht) (empty : Prop) [Decidable empty] (res : α) :
    Ensures AnyFault (if empty then do return (← Prod.fst <$> htable_del mc ht key, res)
      else return (ht, res) : Exec (HashTable × α)) (fun r => Values V r.1 ∧ r.2 = res) := by
  split
  · exact (Ensures.map (htable_del_every h key)).bind (fun ht' hht' => ⟨hht', rfl⟩)
  · exact ⟨h, rfl⟩

/-! ## Writes

Each operation keeps what all values satisfy, if the operation on the container
behind the key does. -/

theorem htable_hset_values {field value : CStr} (h : Values V ht) (hVW : ∀ value, V value → W value)
    (hset : ∀ t, V (.hash t) → Ensures AnyFault (htable_set mc t field value) (fun r => W (.hash r.1)))
    (hnew : Ensures AnyFault (htable_set mc (htable_init HT_BASE_SIZE) field value)
      (fun r => W (.hash r.1))) :
    Ensures AnyFault (htable_hset mc ht key field value) (fun r => Values W r.1) := by
  have hweak := h.mono hVW
  refine Ensures.bind_any (fun found => ?_)
  split
  · unfold htable_update_hash
    apply search_any h
    · exact hweak
    · intro p item hitem
      refine (asHash_any hitem).bind (fun t ht => (hset t ht).bind (fun r hr => ?_))
      exact hweak.set_value p item hr
  · refine hnew.bind (fun r hr => ?_)
    refine Ensures.bind (P := Values W) ?_ (fun ht' hht' => hht')
    exact htable_insert_every hweak hr

theorem htable_push_values {value : CStr} {dir : ListDirection} (h : Values V ht)
    (hpush : ∀ ls, V (.list ls) → Ensures AnyFault (list_push dir ls value) (fun ls' => V (.list ls')))
    (hnew : Ensures AnyFault (list_push dir list_init value) (fun ls' => V (.list ls'))) :
    Ensures AnyFault (htable_push mc ht key value dir) (fun r => Values V r.1) := by
  refine Ensures.bind_any (fun found => ?_)
  split
  · unfold htable_update_list
    apply search_any h
    · exact h
    · intro p item hitem
      refine (asList_any hitem).bind (fun ls hls => (hpush ls hls).bind (fun ls' hls' => ?_))
      exact h.set_value p item hls'
  · refine hnew.bind (fun ls' hls' => ?_)
    refine Ensures.bind (P := Values V) ?_ (fun ht' hht' => hht')
    exact htable_insert_every h hls'

theorem htable_sadd_values {value : CStr} (h : Values V ht)
    (hadd : ∀ st, V (.set st) → Ensures AnyFault (set_add mc st value) (fun r => V (.set r.1)))
    (hnew : Ensures AnyFault (set_add mc (set_init HT_BASE_SIZE) value) (fun r => V (.set r.1))) :
    Ensures AnyFault (htable_sadd mc ht key value) (fun r => Values V r.1) := by
  refine Ensures.bind_any (fun found => ?_)
  split
  · unfold htable_update_set
    apply search_any h
    · exact h
    · intro p item hitem
      refine (asSet_any hitem).bind (fun st hst => (hadd st hst).bind (fun r hr => ?_))
      exact h.set_value p item hr
  · refine hnew.bind (fun r hr => ?_)
    refine Ensures.bind (P := Values V) ?_ (fun ht' hht' => hht')
    exact htable_insert_every h hr

/-- A pop also answers a value that was in the list. -/
theorem htable_pop_values {P : CStr → Prop} {dir : ListDirection} (h : Values V ht)
    (hpop : ∀ ls, V (.list ls) → Ensures AnyFault (list_pop dir ls)
      (fun r => V (.list r.2) ∧ ∀ nd, r.1 = some nd → P nd.value)) (key : CStr) :
    Ensures AnyFault (htable_pop mc ht key dir) (fun r => Values V r.1 ∧ ∀ s, r.2 = some s → P s) := by
  unfold htable_pop
  apply search_any h
  · exact ⟨h, fun s hs => by cases hs⟩
  · intro p item hitem
    refine (asList_any hitem).bind (fun ls hls => (hpop ls hls).bind ?_)
    rintro ⟨node, ls'⟩ ⟨hls', hnode⟩
    cases node with
    | none => exact ensures_error.mpr trivial
    | some node =>
      have hset := h.set_value p item hls'
      refine (drop_empty_values hset (ls'.len = 0) (some node.value)).mono (fun r hr => ⟨hr.1, ?_⟩)
      intro s hs
      rw [hr.2] at hs
      cases hs
      exact hnode node rfl

theorem htable_lset_values {id : Int} {value : CStr} (h : Values V ht)
    (hset : ∀ ls, V (.list ls) → Ensures AnyFault (list_set ls id value) (fun r => V (.list r.2)))
    (key : CStr) : Ensures AnyFault (htable_lset mc ht key id value) (fun r => Values V r.1) := by
  unfold htable_lset
  apply search_any h
  · exact h
  · intro p item hitem
    refine (asList_any hitem).bind (fun ls hls => (hset ls hls).bind (fun r hr => ?_))
    exact h.set_value p item hr

theorem htable_lrem_values {count : Int} {value : CStr} (h : Values V ht)
    (hrem : ∀ ls, V (.list ls) → Ensures AnyFault (list_rem ls count value) (fun r => V (.list r.2)))
    (key : CStr) : Ensures AnyFault (htable_lrem mc ht key count value) (fun r => Values V r.1) := by
  unfold htable_lrem
  apply search_any h
  · exact h
  · intro p item hitem
    refine (asList_any hitem).bind (fun ls hls => (hrem ls hls).bind (fun r hr => ?_))
    have hset := h.set_value p item hr
    exact (drop_empty_values hset (r.2.len = 0) r.1).mono (fun r hr => hr.1)

theorem htable_hdel_values {field : CStr} (h : Values V ht)
    (hdel : ∀ t, V (.hash t) → Ensures AnyFault (htable_del mc t field) (fun r => V (.hash r.1)))
    (key : CStr) : Ensures AnyFault (htable_hdel mc ht key field) (fun r => Values V r.1) := by
  unfold htable_hdel
  apply search_any h
  · exact h
  · intro p item hitem
    refine (asHash_any hitem).bind (fun t ht => (hdel t ht).bind (fun r hr => ?_))
    have hset := h.set_value p item hr
    exact (drop_empty_values hset (r.1.used = 0) r.2).mono (fun r hr => hr.1)

theorem htable_srem_values {value : CStr} (h : Values V ht)
    (hrem : ∀ st, V (.set st) → Ensures AnyFault (set_rem mc st value) (fun r => V (.set r.1)))
    (key : CStr) : Ensures AnyFault (htable_srem mc ht key value) (fun r => Values V r.1) := by
  unfold htable_srem
  apply search_any h
  · exact h
  · intro p item hitem
    refine (asSet_any hitem).bind (fun st hst => (hrem st hst).bind (fun r hr => ?_))
    have hset := h.set_value p item hr
    exact (drop_empty_values hset (r.1.used = 0) r.2).mono (fun r hr => hr.1)

end hyperkv
