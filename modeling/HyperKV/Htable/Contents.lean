import HyperKV.Htable.Values

open Outcome OpenAddressing

namespace hyperkv

variable {mc : Machine} {ht : HashTable} {key : CStr} {P : CStr → Prop}

/-! ## Lists -/

/-- Every node of the list, linked or not, has a value satisfying `P`. -/
def CList.Every (P : CStr → Prop) (ls : CList) : Prop := ∀ nd, some nd ∈ ls.nodes → P nd.value

namespace CList

variable {ls : CList}

theorem Every.node (h : ls.Every P) (p : Option Nat) :
    Ensures AnyFault (ls.node p) (fun nd => P nd.value) := by
  unfold CList.node
  split
  · trivial
  · split
    · rename_i nd hnd
      exact h nd (List.mem_of_getElem? hnd)
    · trivial

theorem Every.modify (h : ls.Every P) (p : Option Nat) {f : ListNode → ListNode}
    (hf : ∀ nd, P nd.value → P (f nd).value) : Ensures AnyFault (ls.modify p f) (CList.Every P) := by
  unfold CList.modify
  split
  · trivial
  · refine (h.node _).bind (fun nd hnd other hmem => ?_)
    rcases List.mem_or_eq_of_mem_set hmem with hold | heq
    · exact h other hold
    · cases heq
      exact hf nd hnd

theorem Every.alloc (h : ls.Every P) (nd : ListNode) (hnd : P nd.value) : (ls.alloc nd).Every P := by
  intro other hmem
  rcases List.mem_append.mp hmem with hold | hnew
  · exact h other hold
  · cases List.mem_singleton.mp hnew
    exact hnd

theorem Every.free (h : ls.Every P) (a : Nat) : (ls.free a).Every P := by
  intro other hmem
  rcases List.mem_or_eq_of_mem_set hmem with hold | heq
  · exact h other hold
  · cases heq

end CList

theorem list_init_every : list_init.Every P := by
  intro nd hmem
  cases hmem

theorem list_push_every {ls : CList} (h : ls.Every P) {value : CStr} (hvalue : P value) (dir : ListDirection) :
    Ensures AnyFault (list_push dir ls value) (CList.Every P) := by
  cases dir with
  | LEFT =>
    have hnew := h.alloc ⟨value, ls.head, none⟩ hvalue
    simp only [list_push, list_lpush]
    split
    · refine (hnew.modify ls.head ?_).bind (fun ls' hls' => hls')
      exact fun _ hnd => hnd
    · exact h.alloc ⟨value, none, none⟩ hvalue
  | RIGHT =>
    have hnew := h.alloc ⟨value, none, ls.tail⟩ hvalue
    simp only [list_push, list_rpush]
    split
    · refine (hnew.modify ls.tail ?_).bind (fun ls' hls' => hls')
      exact fun _ hnd => hnd
    · exact h.alloc ⟨value, none, none⟩ hvalue

/-- A popped node is detached, and its value was in the list. -/
private theorem take_every {ls : CList} (h : ls.Every P) (node : Option Nat) :
    Ensures AnyFault (do
      let ls ← ls.modify node (fun nd => { nd with next := none, prev := none })
      return (some (← ls.node node), ls))
      (fun r : Option ListNode × CList => r.2.Every P ∧ ∀ nd, r.1 = some nd → P nd.value) := by
  refine Ensures.bind (h.modify node ?_) (fun ls' hls' => ?_)
  · exact fun _ hnd => hnd
  · refine (hls'.node node).bind (fun nd hnd => ⟨hls', fun nd' heq => ?_⟩)
    cases heq
    exact hnd

theorem list_pop_every {ls : CList} (h : ls.Every P) (dir : ListDirection) :
    Ensures AnyFault (list_pop dir ls) (fun r => r.2.Every P ∧ ∀ nd, r.1 = some nd → P nd.value) := by
  have hempty : Ensures (AnyFault (ε := Fault)) (.ok ((none : Option ListNode), ls))
      (fun r => r.2.Every P ∧ ∀ nd, r.1 = some nd → P nd.value) := ⟨h, fun nd heq => by cases heq⟩
  cases dir with
  | LEFT =>
    change Ensures _ (list_lpop ls) _
    unfold list_lpop
    dsimp only
    split
    · exact hempty
    · split
      · refine Ensures.bind_any (fun nd => Ensures.bind (P := CList.Every P) ?_ (fun ls' hls' => ?_))
        · apply CList.Every.modify
          · exact h
          · exact fun _ hnd => hnd
        · apply take_every
          exact hls'
      · apply take_every
        exact h
  | RIGHT =>
    change Ensures _ (list_rpop ls) _
    unfold list_rpop
    dsimp only
    split
    · exact hempty
    · split
      · refine Ensures.bind_any (fun nd => Ensures.bind (P := CList.Every P) ?_ (fun ls' hls' => ?_))
        · apply CList.Every.modify
          · exact h
          · exact fun _ hnd => hnd
        · apply take_every
          exact hls'
      · apply take_every
        exact h

theorem list_set_every {ls : CList} (h : ls.Every P) (id : Int) {value : CStr} (hvalue : P value) :
    Ensures AnyFault (list_set ls id value) (fun r => r.2.Every P) := by
  refine Ensures.bind_any (fun cur => ?_)
  split
  · exact h
  · exact (h.modify _ (fun _ _ => hvalue)).bind (fun _ hls => hls)

theorem node_del_every {ls : CList} (h : ls.Every P) (nd : Option Nat) :
    Ensures AnyFault (node_del ls nd) (CList.Every P) := by
  unfold node_del
  split
  · exact h
  · split
    · exact h
    · split
      · refine Ensures.bind_any (fun nd => ?_)
        apply CList.Every.modify
        · exact h
        · exact fun _ hnd => hnd
      · split
        · refine Ensures.bind_any (fun nd => ?_)
          apply CList.Every.modify
          · exact h
          · exact fun _ hnd => hnd
        · refine Ensures.bind_any (fun next => Ensures.bind_any (fun prev => ?_))
          refine Ensures.bind (h.modify _ ?_) (fun ls' hls' => hls'.modify _ ?_)
          · exact fun _ hnd => hnd
          · exact fun _ hnd => hnd

theorem list_rem_loop_every (value : CStr) (pos : Int) (steps : Nat) : ∀ (i count : Int) (ls : CList)
    (cur : Option Nat), ls.Every P →
      Ensures AnyFault (list_rem_loop value pos steps i count ls cur) (fun r => r.2.Every P) := by
  induction steps with
  | zero =>
    intro i count ls cur h
    cases cur with
    | none => exact h
    | some cur => exact ensures_error.mpr trivial
  | succ steps ih =>
    intro i count ls cur h
    cases cur with
    | none => exact h
    | some cur =>
      unfold list_rem_loop
      split
      · exact h
      · refine Ensures.bind_any (fun nd => ?_)
        split
        · refine (node_del_every h _).bind (fun ls' hls' => Ensures.bind_any (fun nd' => ?_))
          apply ih
          apply CList.Every.free
          exact hls'
        · exact Ensures.bind_any (fun nd' => ih _ _ _ _ h)

theorem list_rem_every {ls : CList} (h : ls.Every P) (count : Int) (value : CStr) :
    Ensures AnyFault (list_rem ls count value) (fun r => r.2.Every P) :=
  list_rem_loop_every value count _ _ _ _ _ h

theorem list_collect_every {ls : CList} (h : ls.Every P) (steps : Nat) (cur : Option Nat) :
    Ensures AnyFault (list_collect ls steps cur) (fun values => ∀ s ∈ values, P s) := by
  induction steps generalizing cur with
  | zero =>
    intro s hs
    cases hs
  | succ steps ih =>
    refine (h.node cur).bind (fun nd hnd => (ih nd.next).bind (fun values hvalues s hs => ?_))
    rcases List.mem_cons.mp hs with rfl | hrest
    · exact hnd
    · exact hvalues s hrest

/-! ## Values and stores -/

/-- The strings of a nested hash, its keys among them, satisfy `P`. -/
def Fields (P : CStr → Prop) (t : HashTable) : Prop :=
  t.Every (fun field => P field.key ∧ ∀ s, field.value = .str s → P s)

/-- The strings that a value holds satisfy `P`. -/
def Value.Holding (P : CStr → Prop) : Value → Prop
  | .str s => P s
  | .hash t => Fields P t
  | .list ls => ls.Every P
  | .set st => st.Every P

/-- Whatever a store holds, save its own keys, satisfies `P`. -/
def Contents (P : CStr → Prop) (ht : HashTable) : Prop := ht.Every (fun item => item.value.Holding P)

theorem htable_init_contents (size : Int) : Contents P (htable_init size) := Table.every_empty _

/-! ## Writes -/

theorem htable_set_contents (h : Contents P ht) {value : CStr} (hvalue : P value) :
    Ensures AnyFault (htable_set mc ht key value) (fun r => Contents P r.1) :=
  htable_set_every h hvalue

theorem htable_set_fields {t : HashTable} {field value : CStr} (h : Fields P t) (hfield : P field)
    (hvalue : P value) : Ensures AnyFault (htable_set mc t field value) (fun r => Fields P r.1) := by
  refine htable_set_every h ⟨hfield, fun s hs => ?_⟩
  cases hs
  exact hvalue

theorem set_add_every {st : CSet} (h : st.Every P) {member : CStr} (hmember : P member) :
    Ensures AnyFault (set_add mc st member) (fun r => r.1.Every P) :=
  fromTable_any (Scheme.insert_every 1 st member h hmember)

theorem set_rem_every {st : CSet} (h : st.Every P) (member : CStr) :
    Ensures AnyFault (set_rem mc st member) (fun r => r.1.Every P) :=
  fromTable_any (Scheme.remove_every 1 h member)

theorem htable_hset_contents (h : Contents P ht) {field value : CStr} (hfield : P field) (hvalue : P value) :
    Ensures AnyFault (htable_hset mc ht key field value) (fun r => Contents P r.1) :=
  htable_hset_values h (fun _ hheld => hheld) (fun _ ht => htable_set_fields ht hfield hvalue)
    (htable_set_fields (Table.every_empty _) hfield hvalue)

theorem htable_push_contents (h : Contents P ht) {value : CStr} (hvalue : P value) (dir : ListDirection) :
    Ensures AnyFault (htable_push mc ht key value dir) (fun r => Contents P r.1) :=
  htable_push_values h (fun _ hls => list_push_every hls hvalue dir)
    (list_push_every list_init_every hvalue dir)

theorem htable_sadd_contents (h : Contents P ht) {value : CStr} (hvalue : P value) :
    Ensures AnyFault (htable_sadd mc ht key value) (fun r => Contents P r.1) :=
  htable_sadd_values h (fun _ hst => set_add_every hst hvalue) (set_add_every (Table.every_empty _) hvalue)

theorem htable_pop_contents (h : Contents P ht) (key : CStr) (dir : ListDirection) :
    Ensures AnyFault (htable_pop mc ht key dir) (fun r => Contents P r.1 ∧ ∀ s, r.2 = some s → P s) :=
  htable_pop_values h (fun _ hls => list_pop_every hls dir) key

theorem htable_lset_contents (h : Contents P ht) (key : CStr) (id : Int) {value : CStr} (hvalue : P value) :
    Ensures AnyFault (htable_lset mc ht key id value) (fun r => Contents P r.1) :=
  htable_lset_values h (fun _ hls => list_set_every hls id hvalue) key

theorem htable_lrem_contents (h : Contents P ht) (key : CStr) (count : Int) (value : CStr) :
    Ensures AnyFault (htable_lrem mc ht key count value) (fun r => Contents P r.1) :=
  htable_lrem_values h (fun _ hls => list_rem_every hls count value) key

theorem htable_hdel_contents (h : Contents P ht) (key field : CStr) :
    Ensures AnyFault (htable_hdel mc ht key field) (fun r => Contents P r.1) :=
  htable_hdel_values h (fun _ ht => htable_del_every ht field) key

theorem htable_srem_contents (h : Contents P ht) (key value : CStr) :
    Ensures AnyFault (htable_srem mc ht key value) (fun r => Contents P r.1) :=
  htable_srem_values h (fun _ hst => set_rem_every hst value) key

/-! ## Reads -/

section Reads

variable (htext : ∀ text : StructText, P text.val)

section

include htext

/-- Reading a string that is known of wherever there is one, and of every text that a
    struct may be read as. -/
theorem read_str_any {value : Value} (h : ∀ s, value = .str s → P s) (key : CStr) :
    Ensures AnyFault (mc.read_str key value) P := by
  cases value with
  | str s => exact h s rfl
  | _ =>
    simp only [Machine.read_str]
    cases mc.cast with
    | none => trivial
    | some text => exact htext _

end

/-- What an answer holds, if there is one. -/
def Answers (P : CStr → Prop) (res : Option CStr) : Prop := ∀ s, res = some s → P s

theorem answers_none : Answers P none := fun s hs => by cases hs

include htext in
theorem htable_get_every {t : HashTable} (h : t.Every (fun item => ∀ s, item.value = .str s → P s))
    (key : CStr) : Ensures AnyFault (htable_get mc t key) (Answers P) := by
  unfold htable_get
  apply search_any h
  · exact answers_none
  · intro p item hitem
    refine (read_str_any htext hitem key).bind (fun s hs s' heq => ?_)
    cases heq
    exact hs

include htext in
theorem htable_get_contents (h : Contents P ht) (key : CStr) :
    Ensures AnyFault (htable_get mc ht key) (Answers P) := by
  refine htable_get_every htext (fun item hmem s hs => ?_) key
  have hitem : item.value.Holding P := h item hmem
  rw [hs] at hitem
  exact hitem

include htext in
theorem htable_hget_contents (h : Contents P ht) (key field : CStr) :
    Ensures AnyFault (htable_hget mc ht key field) (Answers P) := by
  unfold htable_hget
  apply search_any h
  · exact answers_none
  · intro p item hitem
    refine (asHash_any hitem).bind (fun t ht => htable_get_every htext (fun field hmem => ?_) field)
    exact (ht field hmem).2

theorem htable_lindex_contents (h : Contents P ht) (key : CStr) (id : Int) :
    Ensures AnyFault (htable_lindex mc ht key id) (Answers P) := by
  unfold htable_lindex
  apply search_any h
  · exact answers_none
  · intro p item hitem
    refine (asList_any hitem).bind (fun ls hls => Ensures.bind_any (fun cur => ?_))
    split
    · exact answers_none
    · refine (hls.node _).bind (fun nd hnd s hs => ?_)
      cases hs
      exact hnd

/-- A listing holds what the copies of its items hold. -/
theorem hash_listing_every {Q : HashTableItem Value → Prop} {copy : HashTableItem Value → Exec (List CStr)}
    (hcopy : ∀ item, Q item → Ensures AnyFault (copy item) (fun texts => ∀ s ∈ texts, P s)) (announced : Int)
    (slots : List (Slot (HashTableItem Value))) (hslots : ∀ item, .live item ∈ slots → Q item)
    (res : List CStr) (hres : ∀ s ∈ res, P s) :
    Ensures AnyFault (hash_listing copy announced slots res) (fun r => ∀ s ∈ r.getD [], P s) := by
  induction slots generalizing res with
  | nil =>
    intro s hs
    cases hs
  | cons slot rest ih =>
    have hslot : Ensures AnyFault (copy_slot copy slot) (fun texts => ∀ s ∈ texts, P s) := by
      cases slot with
      | live item => exact hcopy item (hslots item List.mem_cons_self)
      | _ =>
        intro s hs
        cases hs
    refine hslot.bind (fun more hmore => ?_)
    have hall : ∀ s ∈ res ++ more, P s := by
      intro s hs
      exact (List.mem_append.mp hs).elim (hres s) (hmore s)
    dsimp only
    split
    · exact hall
    · exact ih (fun item hmem => hslots item (List.mem_cons_of_mem _ hmem)) _ hall

include htext in
theorem htable_hgetall_contents (h : Contents P ht) (key : CStr) :
    Ensures AnyFault (htable_hgetall mc ht key) (fun r => ∀ s ∈ r.getD [], P s) := by
  unfold htable_hgetall
  apply search_any h
  · exact fun s hs => by cases hs
  · intro p item hitem
    refine (asHash_any hitem).bind (fun t ht => hash_listing_every (fun field hfield => ?_) _ t.slots ht [] ?_)
    · refine (read_str_any htext hfield.2 _).bind (fun value hvalue => ?_)
      exact List.forall_mem_cons.mpr ⟨hfield.1, List.forall_mem_singleton.mpr hvalue⟩
    · exact fun s hs => by cases hs

include htext in
theorem htable_hkeyvals_contents (h : Contents P ht) (key : CStr) (ky : Bool) :
    Ensures AnyFault (htable_hkeyvals mc ht key ky) (fun r => ∀ s ∈ r.getD [], P s) := by
  unfold htable_hkeyvals
  apply search_any h
  · exact fun s hs => by cases hs
  · intro p item hitem
    refine (asHash_any hitem).bind (fun t ht => hash_listing_every (fun field hfield => ?_) _ t.slots ht [] ?_)
    · cases ky with
      | true => exact List.forall_mem_singleton.mpr hfield.1
      | false =>
        refine Ensures.bind (read_str_any htext hfield.2 _) (fun value hvalue => ?_)
        exact List.forall_mem_singleton.mpr hvalue
    · exact fun s hs => by cases hs

theorem htable_lrange_contents (h : Contents P ht) (key : CStr) (bgn stop : Int) :
    Ensures AnyFault (htable_lrange mc ht key bgn stop) (fun r => ∀ s ∈ r.getD [], P s) := by
  refine Ensures.bind_any (fun type => ?_)
  split
  · apply search_any h
    · exact ensures_error.mpr trivial
    · intro p item hitem
      refine (asList_any hitem).bind (fun ls hls => ?_)
      refine Ensures.bind (P := fun values => ∀ s ∈ values, P s) ?_ (fun _ hvalues => hvalues)
      exact Ensures.bind_any (fun cur => list_collect_every hls _ cur)
  · exact fun s hs => by cases hs

theorem htable_smembers_contents (h : Contents P ht) (key : CStr) :
    Ensures AnyFault (htable_smembers mc ht key) (fun r => ∀ s ∈ r.getD [], P s) := by
  unfold htable_smembers
  apply search_any h
  · exact fun s hs => by cases hs
  · exact fun p item hitem => (asSet_any hitem).bind (fun st hst => Table.every_items.mp hst)

end Reads

end hyperkv
