import HyperKV.Keyspace.Reads
import HyperKV.Keyspace.Writes

open Outcome OpenAddressing KeyedStore

namespace hyperkv

variable {mc : Machine} {ht : HashTable} {key : CStr} {db : Keyspace}

/-! ## When a command loses nothing -/

/-- The operations of a command land, one after the other. -/
def CommandType.lands (mc : Machine) (ht : HashTable) : CommandType → List CStr → Bool
  | .DEL => fun keys =>
    meets (fun ht key => Prod.fst <$> htable_del mc ht key)
      (fun ht key => htable_lands mc ht (.del key)) ht keys
  | .SET => fun
    | [key] => htable_lands mc ht (.set key [])
    | [key, value] => htable_lands mc ht (.set key value)
    | _ => true
  | .MSET => fun args => meets (fun ht b => Prod.fst <$> htable_set mc ht b.1 b.2)
      (fun ht b => htable_lands mc ht (.set b.1 b.2)) ht (pairs args)
  | .INCR => fun args => htable_lands mc ht (.set (args.headD []) (cstr "1"))
  | .DECR => fun args => htable_lands mc ht (.set (args.headD []) (cstr "-1"))
  | .INCRBY | .DECRBY => fun args => !is_number (args.tail.headD []) ||
      htable_lands mc ht (.set (args.headD []) (intostr (strtoi (args.tail.headD []))))
  | .HSET => fun args => meets (fun ht b => Prod.fst <$> htable_hset mc ht (args.headD []) b.1 b.2)
      (fun ht b => hset_lands mc ht (args.headD []) b.1 b.2) ht (pairs args.tail)
  | .HDEL => fun args => meets (fun ht field => Prod.fst <$> htable_hdel mc ht (args.headD []) field)
      (fun ht field => hdel_lands mc ht (args.headD []) field) ht args.tail
  | .LPUSH => fun args =>
      meets (fun ht value => Prod.fst <$> htable_push mc ht (args.headD []) value .LEFT)
      (fun ht value => push_lands mc ht .LEFT (args.headD []) value) ht args.tail
  | .RPUSH => fun args =>
      meets (fun ht value => Prod.fst <$> htable_push mc ht (args.headD []) value .RIGHT)
      (fun ht value => push_lands mc ht .RIGHT (args.headD []) value) ht args.tail
  | .LPOP => fun args => pop_lands mc ht .LEFT (args.headD [])
  | .RPOP => fun args => pop_lands mc ht .RIGHT (args.headD [])
  | .LREM => fun args => !is_number (args.tail.headD []) ||
      lrem_lands mc ht (args.headD []) (strtoi (args.tail.headD [])) (args.tail.tail.headD [])
  | .SADD => fun args => meets (fun ht member => Prod.fst <$> htable_sadd mc ht (args.headD []) member)
      (fun ht member => sadd_lands mc ht (args.headD []) member) ht args.tail
  | .SREM => fun args => meets (fun ht member => Prod.fst <$> htable_srem mc ht (args.headD []) member)
      (fun ht member => srem_lands mc ht (args.headD []) member) ht args.tail
  | _ => fun _ => true

def Command.lands (mc : Machine) (ht : HashTable) (cmd : Command) : Bool :=
  !cmd.type.accepts cmd.argc || cmd.type.lands mc ht cmd.argv

/-! ## The frames -/

/-- The code answers and leaves the store as the key space has it; where the key
    space has no answer the code does not return. -/
def Realizes (mc : Machine) (x : Exec (CStr × HashTable)) (p : Option Answer × Keyspace) : Prop :=
  match p.1 with
  | some answer => Ensures (IndexFault mc) x (fun r => answer.Encodes r.1 ∧ Means mc r.2 p.2)
  | none => Ensures AnyFault x (fun _ => False)

theorem Realizes.bind {α : Type} {x : Exec α} {P : α → Prop} {next : α → Exec (CStr × HashTable)}
    {p : Option Answer × Keyspace} (hx : Ensures (IndexFault mc) x P)
    (hnext : ∀ a, P a → Realizes mc (next a) p) : Realizes mc (x >>= next) p := by
  unfold Realizes at hnext ⊢
  split
  · rename_i answer hanswer
    refine hx.bind (fun a ha => ?_)
    have h := hnext a ha
    rwa [hanswer] at h
  · rename_i hanswer
    refine hx.anyFault.bind (fun a ha => ?_)
    have h := hnext a ha
    rwa [hanswer] at h

/-- Answering from the store, which stays as it is. -/
theorem Means.answer (hm : Means mc ht db) {answer : Answer} {reply : CStr} (h : answer.Encodes reply) :
    Realizes mc (.ok (reply, ht)) (some answer, db) := ⟨h, hm⟩

theorem Means.answer_read {α : Type} (hm : Means mc ht db) {read : Exec α} {P : α → Prop}
    {reply : α → CStr}
    {answer : Answer} (hread : Ensures (IndexFault mc) read P) (h : ∀ a, P a → answer.Encodes (reply a)) :
    Realizes mc (do return (reply (← read), ht)) (some answer, db) :=
  Realizes.bind hread (fun a ha => hm.answer (h a ha))

/-- The handler of a command type does what the key space says, in any store
    that stands for one. -/
def Follows (mc : Machine) (type : CommandType) : Prop := ∀ {ht db argv}, Means mc ht db →
  Command.lands mc ht ⟨type, argv⟩ → Realizes mc (fns mc type ht ⟨type, argv⟩)
    (Keyspace.exec ⟨type, argv⟩ db)

theorem follows_argc {type : CommandType} {body : Handler}
    (hfns : fns mc type = with_argc type.accepts type.expected body)
    (hbody : ∀ ht db argv, Means mc ht db → type.accepts argv.length → type.lands mc ht argv →
      Realizes mc (body ht ⟨type, argv⟩)
        (if Keyspace.typed ⟨type, argv⟩ db then Keyspace.apply type argv db else (some .wrongType, db))) :
    Follows mc type := by
  intro ht db argv hm hlands
  rw [hfns]
  change Realizes mc (if type.accepts argv.length then body ht ⟨type, argv⟩
      else .ok (reply_err_argc argv.length type.expected, ht))
    (if type.accepts argv.length then
      if Keyspace.typed ⟨type, argv⟩ db then Keyspace.apply type argv db else (some .wrongType, db)
    else (some (.wrongArgc argv.length type.expected), db))
  by_cases haccepted : type.accepts argv.length
  · have hl : type.lands mc ht argv := by
      simpa [Command.lands, Command.argc, haccepted] using hlands
    rw [if_pos haccepted, if_pos haccepted]
    exact hbody ht db argv hm haccepted hl
  · rw [if_neg haccepted, if_neg haccepted]
    exact hm.answer rfl

/-- The frame of the commands on keys of any type. -/
theorem follows_untyped {type : CommandType} {body : Handler}
    (hfns : fns mc type = with_argc type.accepts type.expected body) (htype : type.key_type = none)
    (hbody : ∀ ht db argv, Means mc ht db → type.accepts argv.length → type.lands mc ht argv →
      Realizes mc (body ht ⟨type, argv⟩) (Keyspace.apply type argv db)) : Follows mc type := by
  refine follows_argc hfns (fun ht db argv hm haccepted hlands => ?_)
  have htyped : Keyspace.typed ⟨type, argv⟩ db := by
    rw [Keyspace.typed]
    simp only [htype]
  rw [if_pos htyped]
  exact hbody ht db argv hm haccepted hlands

/-- A command of one type takes a key. -/
theorem accepts_pos {type : CommandType} {t : ItemType} (htype : type.key_type = some t) {n : Nat}
    (h : type.accepts n) : 0 < n := by
  cases type <;> cases htype <;> simp [CommandType.accepts] at h <;> omega

/-- The frame of the commands on keys of one type. -/
theorem follows_typed {type : CommandType} {expected : String} {body : CStr → Handler} (t : ItemType)
    (hfns : fns mc type = with_argc type.accepts type.expected (with_type mc expected body))
    (htype : type.key_type = some t) (hname : cstr expected = t.name)
    (hbody : ∀ ht db key args, Means mc ht db → TypedAt ht key t → type.accepts (args.length + 1) →
      type.lands mc ht (key :: args) →
      Realizes mc (body key ht ⟨type, key :: args⟩) (Keyspace.apply type (key :: args) db)) :
    Follows mc type := by
  refine follows_argc hfns (fun ht db argv hm haccepted hlands => ?_)
  cases argv with
  | nil => exact absurd (accepts_pos htype haccepted) (Nat.lt_irrefl 0)
  | cons key args =>
    rw [Keyspace.typed]
    simp only [htype]
    change Realizes mc (htable_type mc ht key >>= fun name =>
      if is_type name (cstr expected) then body key ht ⟨type, key :: args⟩
        else .ok (reply_err_type, ht)) _
    refine Realizes.bind (ensures_of_missed (htable_type_spec hm.ok.table key)) (fun name hchecked => ?_)
    rw [hname]
    by_cases htyped : TypedAt ht key t
    · rw [if_pos ((hchecked t).mpr htyped), if_pos ((hm.typedAt_iff t).mp htyped)]
      exact hbody ht db key args hm htyped haccepted hlands
    · rw [if_neg (fun h => htyped ((hchecked t).mp h)),
        if_neg (fun h => htyped ((hm.typedAt_iff t).mpr h))]
      exact hm.answer rfl

/-- A loop over arguments follows the operations of the key space: by induction
    along the arguments, with what the accumulator makes of the answers. -/
theorem foldlM_each {α β γ : Type} {tolerated : Fault → Prop} {R : HashTable → Keyspace → Prop}
    {op : HashTable → α → Exec (HashTable × β)} {op' : α → Operation CStr Datum β}
    {lands : HashTable → α → Bool} {g : γ → β → γ} {step : γ × HashTable → α → Exec (γ × HashTable)}
    (hstep : ∀ acc ht a, step (acc, ht) a = op ht a >>= fun r => .ok (g acc r.2, r.1))
    (hop : ∀ ht db a, R ht db → lands ht a →
      Ensures tolerated (op ht a) (fun r => R r.1 (op' a db).2 ∧ r.2 = (op' a db).1)) :
    ∀ (args : List α) (acc : γ) {ht : HashTable} {db : Keyspace}, R ht db →
      meets (fun ht a => Prod.fst <$> op ht a) lands ht args →
      Ensures tolerated (args.foldlM step (acc, ht)) (fun r =>
        R r.2 (each op' args db).2 ∧ r.1 = (each op' args db).1.foldl g acc) := by
  intro args
  induction args with
  | nil => exact fun _ _ _ hR _ => ⟨hR, rfl⟩
  | cons a rest ih =>
    intro acc ht db hR hmeets
    rw [meets_cons, ensures_map] at hmeets
    rw [List.foldlM_cons, hstep, bind_assoc]
    refine ((hop ht db a hR hmeets.1).and hmeets.2).bind ?_
    rintro ⟨ht', b⟩ ⟨⟨hR', hb⟩, hrest⟩
    rw [ok_bind]
    refine (ih (g acc b) hR' hrest).mono (fun r hr => ⟨hr.1, ?_⟩)
    rw [hr.2, each, List.foldl_cons, ← hb]

theorem foldl_count (oks : List Bool) (n : Int) :
    oks.foldl (fun n ok => n + (ok.toNat : Int)) n = n + oks.count true := by
  induction oks generalizing n with
  | nil => exact (add_zero n).symm
  | cons ok oks ih =>
    rw [List.foldl_cons, ih, List.count_cons]
    cases ok
    · simp
    · simp only [Bool.toNat_true, beq_self_eq_true, if_true]
      omega

/-- The commands that count successes. -/
theorem count_oks_realizes {α : Type} {R : HashTable → Keyspace → Prop}
    {op : HashTable → α → Exec (HashTable × Bool)} {op' : α → Operation CStr Datum Bool}
    {lands : HashTable → α → Bool} (hR : ∀ ht db, R ht db → Means mc ht db)
    (hop : ∀ ht db a, R ht db → lands ht a →
      Ensures (IndexFault mc) (op ht a) (fun r => R r.1 (op' a db).2 ∧ r.2 = (op' a db).1))
    {args : List α} (h : R ht db) (hlands : meets (fun ht a => Prod.fst <$> op ht a) lands ht args) :
    Realizes mc (do let (oks, ht) ← count_oks op args ht; return (reply_integer oks, ht))
      (Keyspace.tally op' args db) := by
  refine (foldlM_each (g := fun n ok => n + (ok.toNat : Int))
    (fun _ _ _ => rfl) hop args 0 h hlands).bind ?_
  rintro ⟨oks, ht'⟩ ⟨hmeans, hoks⟩
  refine ⟨?_, hR _ _ hmeans⟩
  change reply_integer oks = reply_integer _
  rw [show oks = _ from hoks, foldl_count, zero_add]

end hyperkv
