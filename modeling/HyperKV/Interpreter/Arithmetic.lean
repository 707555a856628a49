import HyperKV.Interpreter.Encoding
import HyperKV.Interpreter.Faults

open Outcome hyperkv.Resp

namespace hyperkv

variable {mc : Machine} {ht : HashTable} {key : CStr} {cmd : Command} {missing : Int} {move : Int → Int}

/-- The text of an operand, as the handlers read it. -/
structure Operand (text : CStr) (n : Int) : Prop where
  number : is_number text = true
  value : strtoi text = n

/-- The four counter commands on a key, each with the number that it gives to a
    missing key and the change that it makes to a number. -/
inductive CounterCommand (key : CStr) : Command → Int → (Int → Int) → Prop where
  | incr : CounterCommand key ⟨.INCR, [key]⟩ 1 (· + 1)
  | decr : CounterCommand key ⟨.DECR, [key]⟩ (-1) (· - 1)
  | incrby {operand n} : Operand operand n → CounterCommand key ⟨.INCRBY, [key, operand]⟩ n (· + n)
  | decrby {operand n} : Operand operand n → CounterCommand key ⟨.DECRBY, [key, operand]⟩ n (· - n)

/-- Storing a number and answering it. -/
def store_number (mc : Machine) (ht : HashTable) (key : CStr) (x : Int) : Exec (CStr × HashTable) := do
  let (ht, _) ← htable_set mc ht key (intostr x)
  return (reply_integer x, ht)

/-- What the four handlers do with the string found, or with none. -/
def count (mc : Machine) (ht : HashTable) (key : CStr) (missing : Int) (move : Int → Int) :
    Option CStr → Exec (CStr × HashTable)
  | none => store_number mc ht key missing
  | some s =>
    if is_number s then store_number mc ht key (int32 (move (strtoi s)))
    else .ok (reply_err_intid, ht)

/-- Their common frame: the check of the type, then the read of the value. -/
def count_key (mc : Machine) (ht : HashTable) (key : CStr) (missing : Int) (move : Int → Int) :
    Exec (CStr × HashTable) := do
  let name ← htable_type mc ht key
  if is_type name (cstr "string") then
    let str ← htable_get mc ht key
    count mc ht key missing move str
  else return (reply_err_type, ht)

theorem exec_step_eq {text : String} (type : CommandType) (change : Int) (htext : cstr text = intostr missing) :
    exec_step mc text missing change ht ⟨type, [key]⟩ = count_key mc ht key missing (· + change) := by
  unfold exec_step count_key with_argc with_type
  rw [htext]
  rfl

theorem exec_stepby_eq (type : CommandType) (combine : Int → Int → Int) {operand : CStr} {n : Int}
    (hoperand : Operand operand n) :
    exec_stepby mc combine ht ⟨type, [key, operand]⟩ = count_key mc ht key n (combine · n) := by
  unfold exec_stepby count_key with_argc with_type
  change (htable_type mc ht key >>= _) = _
  congr 1
  funext name
  by_cases htype : is_type name (cstr "string") = true
  · rw [if_pos htype, if_pos htype]
    change (htable_get mc ht key >>= _) = _
    congr 1
    funext str
    have harg : Command.arg ⟨type, [key, operand]⟩ 1 = .ok operand := rfl
    rw [harg, ok_bind, hoperand.number, hoperand.value]
    cases str with
    | none => rfl
    | some s =>
      simp only [Option.isNone_some, Bool.false_eq_true, if_false, deref, ok_bind, Bool.and_true, count,
        store_number]
      rfl
  · rw [if_neg htype, if_neg htype]

theorem CounterCommand.interpret_eq (hcmd : CounterCommand key cmd missing move) :
    interpret mc ht cmd = count_key mc ht key missing move := by
  cases hcmd with
  | incr => exact exec_step_eq .INCR 1 (by decide)
  | decr => exact exec_step_eq .DECR (-1) (by decide)
  | incrby hoperand => exact exec_stepby_eq .INCRBY _ hoperand
  | decrby hoperand => exact exec_stepby_eq .DECRBY _ hoperand

/-- A key that may be read as a string holds one, or is missing. -/
theorem TypedAt.exists_stringAt (htyped : TypedAt ht key .STR_T) (h : StoreOk mc ht) :
    ∃ str, StringAt ht key str := by
  by_cases habsent : Absent ht key
  · exact ⟨none, habsent⟩
  · unfold Absent at habsent
    push Not at habsent
    obtain ⟨item, hmem, hkey⟩ := habsent
    obtain ⟨s, hvalue⟩ := (h.items item hmem).str (htyped item hmem hkey)
    exact ⟨some s, item, hmem, hkey, hvalue⟩

theorem store_number_ensures (h : StoreOk mc ht) (key : CStr) (x : Int) :
    Ensures (IndexFault mc) (store_number mc ht key x) (fun r => r.1 = reply_integer x) :=
  (htable_set_storeOk h key (intostr x)).bind (fun _ _ => rfl)

theorem count_ensures (h : StoreOk mc ht) (key : CStr) (missing : Int) (move : Int → Int)
    (str : Option CStr) : Ensures (IndexFault mc) (count mc ht key missing move str) (fun _ => True) := by
  have hstore : ∀ x, Ensures (IndexFault mc) (store_number mc ht key x) (fun _ => True) :=
    fun x => (store_number_ensures h key x).mono (fun _ _ => trivial)
  cases str with
  | none => exact hstore missing
  | some s =>
    change Ensures _ (if is_number s = true then _ else _) _
    split
    · exact hstore _
    · trivial

/-- What a counter command answers, from what its key holds. -/
theorem CounterCommand.interpret_ensures (h : StoreOk mc ht) (hcmd : CounterCommand key cmd missing move) :
    Ensures (IndexFault mc) (interpret mc ht cmd) (fun r =>
      (¬ TypedAt ht key .STR_T → r = (reply_err_type, ht)) ∧
      ∀ str, StringAt ht key str → count mc ht key missing move str = .ok r) := by
  rw [hcmd.interpret_eq]
  refine (ensures_of_missed (htable_type_spec h.table key)).bind ?_
  intro name hname
  have hstring : is_type name (cstr "string") = true ↔ TypedAt ht key .STR_T := hname .STR_T
  by_cases htyped : TypedAt ht key .STR_T
  · rw [if_pos (hstring.mpr htyped)]
    refine (ensures_of_missed (htable_get_spec h htyped)).bind ?_
    intro str hstr
    refine (count_ensures h key missing move str).mono_eq ?_
    intro r hr _
    refine ⟨fun hother => absurd htyped hother, fun str' hstr' => ?_⟩
    rw [hstr'.unique hstr h]
    exact hr
  · rw [if_neg (fun htype => htyped (hstring.mp htype))]
    exact ⟨fun _ => rfl, fun str hstr => absurd (hstr.typedAt h) htyped⟩

theorem reply_integer_inj {x y : Int} : reply_integer x = reply_integer y ↔ x = y := by
  constructor
  · intro heq
    have hread := read_elem_integer x []
    rw [heq, read_elem_integer y []] at hread
    cases hread
    rfl
  · exact congrArg reply_integer

theorem reply_integer_ne_err (x : Int) : reply_integer x ≠ reply_err_intid := by
  intro heq
  have hhead := congrArg List.head? heq
  have hcolon : (reply_integer x).head? = some CChar.colon := rfl
  rw [hcolon] at hhead
  exact absurd hhead (by decide)

/-! ## Agreement -/

/-- The replies and stores that six counter commands give on the same store:
    `DECRBY n` and `INCRBY -n`, `INCR` and `INCRBY 1`, `DECR` and `DECRBY 1`. -/
structure CounterAnswers where
  decrby : CStr × HashTable
  incrby_negated : CStr × HashTable
  incr : CStr × HashTable
  incrby_one : CStr × HashTable
  decr : CStr × HashTable
  decrby_one : CStr × HashTable

def counter_answers (mc : Machine) (ht : HashTable) (key operand negated one : CStr) : Exec CounterAnswers := do
  return {
    decrby := ← interpret mc ht ⟨.DECRBY, [key, operand]⟩
    incrby_negated := ← interpret mc ht ⟨.INCRBY, [key, negated]⟩
    incr := ← interpret mc ht ⟨.INCR, [key]⟩
    incrby_one := ← interpret mc ht ⟨.INCRBY, [key, one]⟩
    decr := ← interpret mc ht ⟨.DECR, [key]⟩
    decrby_one := ← interpret mc ht ⟨.DECRBY, [key, one]⟩ }

/-- Each command has the same effect and reply as the one it is paired with. -/
structure CounterAnswers.Agree (a : CounterAnswers) : Prop where
  decrby : a.decrby = a.incrby_negated
  incr : a.incr = a.incrby_one
  decr : a.decr = a.decrby_one

/-- On a key that is missing, `missing` decides; on any other key, `move`. -/
theorem CounterCommand.same {cmd' : Command} {missing' : Int} {move' : Int → Int} {r r' : CStr × HashTable}
    (h : StoreOk mc ht) (hcmd : CounterCommand key cmd missing move)
    (hcmd' : CounterCommand key cmd' missing' move') (hmove : ∀ x, move x = move' x)
    (hr : interpret mc ht cmd = .ok r) (hr' : interpret mc ht cmd' = .ok r') :
    r = r' ↔ ¬ Absent ht key ∨ missing = missing' := by
  obtain ⟨hother, hcount⟩ := (hcmd.interpret_ensures h).of_eq_ok hr
  obtain ⟨hother', hcount'⟩ := (hcmd'.interpret_ensures h).of_eq_ok hr'
  by_cases htyped : TypedAt ht key .STR_T
  · obtain ⟨str, hstr⟩ := htyped.exists_stringAt h
    have hanswer := hcount str hstr
    have hanswer' := hcount' str hstr
    cases str with
    | none =>
      have habsent : Absent ht key := hstr
      rw [or_iff_right (not_not.mpr habsent)]
      constructor
      · rintro rfl
        have hreply := (store_number_ensures h key missing).of_eq_ok hanswer
        have hreply' := (store_number_ensures h key missing').of_eq_ok hanswer'
        exact reply_integer_inj.mp (hreply.symm.trans hreply')
      · rintro rfl
        exact Except.ok.inj (hanswer.symm.trans hanswer')
    | some s =>
      have hfunction : move = move' := funext hmove
      rw [hfunction] at hanswer
      exact iff_of_true (Except.ok.inj (hanswer.symm.trans hanswer')) (Or.inl (Stored.not_absent hstr))
  · have hpresent : ¬ Absent ht key := fun habsent => htyped (habsent.typedAt _)
    rw [hother htyped, hother' htyped]
    exact iff_of_true rfl (Or.inl hpresent)

theorem CounterCommand.missing_reply {r : CStr × HashTable} (h : StoreOk mc ht)
    (hcmd : CounterCommand key cmd missing move) (hr : interpret mc ht cmd = .ok r) (habsent : Absent ht key) :
    r.1 = reply_integer missing := by
  obtain ⟨_, hcount⟩ := (hcmd.interpret_ensures h).of_eq_ok hr
  exact (store_number_ensures h key missing).of_eq_ok (hcount none habsent)

/-- The counter commands agree exactly on the keys that exist. A missing key
    counts as 0 in all of them but `DECRBY`, which stores its operand where it
    should store the negated one. -/
theorem counters_agree (mc : Machine) {ht : HashTable} (h : Reachable mc ht) (key : CStr) {n : Int}
    {operand negated one : CStr} (hoperand : Operand operand n) (hnegated : Operand negated (-n))
    (hone : Operand one 1) :
    Ensures (IndexFault mc) (counter_answers mc ht key operand negated one) (fun a =>
      (a.Agree ↔ ¬ Absent ht key) ∧ (a.decrby = a.incrby_negated ↔ ¬ Absent ht key ∨ n = 0) ∧
      a.incr = a.incrby_one ∧ (a.decr = a.decrby_one ↔ ¬ Absent ht key) ∧
      (Absent ht key → a.incrby_negated.1 = reply_integer (0 + -n) ∧ a.incr.1 = reply_integer (0 + 1) ∧
        a.decr.1 = reply_integer (0 - 1) ∧ a.decrby.1 = reply_integer n)) := by
  have hok := h.storeOk
  have hruns : ∀ {cmd missing move}, CounterCommand key cmd missing move →
      Ensures (IndexFault mc) (interpret mc ht cmd) (fun _ => True) :=
    fun hcmd => (hcmd.interpret_ensures hok).mono (fun _ _ => trivial)
  have hdecrby : CounterCommand key _ _ _ := .decrby hoperand
  have hincrby : CounterCommand key _ _ _ := .incrby hnegated
  have hincrbyOne : CounterCommand key _ _ _ := .incrby hone
  have hdecrbyOne : CounterCommand key _ _ _ := .decrby hone
  unfold counter_answers
  refine (hruns hdecrby).bind_eq (fun a ha _ => ?_)
  refine (hruns hincrby).bind_eq (fun b hb _ => ?_)
  refine (hruns .incr).bind_eq (fun c hc _ => ?_)
  refine (hruns hincrbyOne).bind_eq (fun d hd _ => ?_)
  refine (hruns .decr).bind_eq (fun e he _ => ?_)
  refine (hruns hdecrbyOne).bind_eq (fun f hf _ => ?_)
  have hfirst : a = b ↔ ¬ Absent ht key ∨ n = 0 := by
    rw [hdecrby.same hok hincrby (fun x => sub_eq_add_neg x n) ha hb]
    exact or_congr_right ⟨fun heq => by omega, fun heq => by omega⟩
  have hsecond : c = d := (CounterCommand.incr.same hok hincrbyOne (fun _ => rfl) hc hd).mpr (Or.inr rfl)
  have hthird : e = f ↔ ¬ Absent ht key := by
    rw [CounterCommand.decr.same hok hdecrbyOne (fun _ => rfl) he hf]
    exact or_iff_left (by decide)
  have hmissing : Absent ht key → b.1 = reply_integer (0 + -n) ∧ c.1 = reply_integer (0 + 1) ∧
      e.1 = reply_integer (0 - 1) ∧ a.1 = reply_integer n := by
    intro habsent
    rw [Int.zero_add]
    exact ⟨hincrby.missing_reply hok hb habsent, CounterCommand.incr.missing_reply hok hc habsent,
      CounterCommand.decr.missing_reply hok he habsent, hdecrby.missing_reply hok ha habsent⟩
  refine ⟨⟨fun hagree => hthird.mp hagree.decr, fun hpresent => ?_⟩, hfirst, hsecond, hthird, hmissing⟩
  exact ⟨hfirst.mpr (Or.inl hpresent), hsecond, hthird.mpr hpresent⟩

theorem counters_agree_stored :
    Ensures (IndexFault machine)
      (do let ht ← run_commands machine [⟨.SET, [cstr "k", cstr "10"]⟩]
          counter_answers machine ht (cstr "k") (cstr "3") (cstr "-3") (cstr "1"))
      CounterAnswers.Agree := by
  have hrun : Ensures (IndexFault machine) (run_commands machine [⟨.SET, [cstr "k", cstr "10"]⟩])
      (fun ht => ∃ item ∈ ht.items, item.key = cstr "k") := by
    decide +kernel
  refine hrun.bind_eq ?_
  intro ht hht hpresent
  have hoperand : Operand (cstr "3") 3 := ⟨by decide, by decide⟩
  have hnegated : Operand (cstr "-3") (-3) := ⟨by decide, by decide⟩
  have hone : Operand (cstr "1") 1 := ⟨by decide, by decide⟩
  apply (counters_agree machine ⟨_, hht⟩ (cstr "k") hoperand hnegated hone).mono
  intro a ha
  apply ha.1.mpr
  intro habsent
  obtain ⟨item, hmem, hkey⟩ := hpresent
  exact habsent item hmem hkey

/-- `DECRBY x 5` and `INCRBY x -5` on a fresh server. -/
theorem counters_differ :
    ¬ Ensures (IndexFault machine)
      (do let ht ← run_commands machine []
          counter_answers machine ht (cstr "x") (cstr "5") (cstr "-5") (cstr "1"))
      CounterAnswers.Agree := by
  have hreplies : Ensures (fun _ => False)
      (do let ht ← run_commands machine []
          counter_answers machine ht (cstr "x") (cstr "5") (cstr "-5") (cstr "1"))
      (fun a => a.decrby.1 = cstr ":5\r\n" ∧ a.incrby_negated.1 = cstr ":-5\r\n") := by
    decide +kernel
  intro hagree
  obtain ⟨a, ha, hdecrby, hincrby⟩ := hreplies.exists_ok (fun _ hfalse => hfalse)
  rw [(hagree.of_eq_ok ha).decrby, hincrby] at hdecrby
  exact absurd hdecrby (by decide)

/-! ## Exactness -/

/-- A number that an `int` holds. -/
def Fits (x : Int) : Prop := -2147483648 ≤ x ∧ x < 2147483648

/-- The exact result `x` is stored and answered; where it fits no `int`, the
    command is refused and the key keeps its number. -/
def ExactOrRefused (key : CStr) (v x : Int) (r : CStr × HashTable) : Prop :=
  (Fits x ∧ r.1 = reply_integer x ∧ Stored r.2 key (.str (decimal x))) ∨
    (¬ Fits x ∧ r.1 = reply_err_intid ∧ Stored r.2 key (.str (decimal v)))

/-- Storing a number over a string. -/
theorem store_number_stored (h : StoreOk mc ht) {s : CStr} (hstored : Stored ht key (.str s)) (x : Int) :
    Ensures (IndexFault mc) (store_number mc ht key x)
      (fun r => r.1 = reply_integer x ∧ Stored r.2 key (.str (decimal x))) := by
  refine (htable_set_cases h.table key (intostr x)).bind ?_
  rintro r (⟨habsent, _⟩ | ⟨p, item, hold, htype, _⟩ | ⟨p, item, hold, _, rfl⟩)
  · exact absurd habsent hstored.not_absent
  · exact absurd (hstored.typedAt h item hold.mem hold.key_eq) htype
  · obtain ⟨_, hmem⟩ := h.table.replace ⟨.STR_T, key, .str (intostr x)⟩ hold rfl
    exact ⟨rfl, _, (hmem _).mpr (Or.inl rfl), rfl, rfl⟩

theorem CounterCommand.interpret_number (h : StoreOk mc ht) (hcmd : CounterCommand key cmd missing move)
    {v : Int} (hv : Fits v) (hstored : Stored ht key (.str (decimal v))) :
    Ensures (IndexFault mc) (interpret mc ht cmd) (fun r => r.1 = reply_integer (int32 (move v)) ∧
      Stored r.2 key (.str (decimal (int32 (move v))))) := by
  have hcount : count mc ht key missing move (some (decimal v)) = store_number mc ht key (int32 (move v)) := by
    change (if is_number (decimal v) = true then _ else _) = _
    rw [if_pos (is_number_decimal hv.1 hv.2), strtoi_decimal hv.1 hv.2]
  refine (hcmd.interpret_ensures h).mono_eq ?_
  rintro r _ ⟨_, hanswer⟩
  have hstore := hanswer (some (decimal v)) hstored
  rw [hcount] at hstore
  exact (store_number_stored h hstored _).of_eq_ok hstore

/-- A counter command on a number is exact or refused exactly when the result
    fits an `int`: nothing checks it, and a result that does not fit is wrapped. -/
theorem counter_arithmetic_exact (mc : Machine) {ht : HashTable} (h : Reachable mc ht) {key : CStr}
    {cmd : Command} {missing v : Int} {move : Int → Int} (hcmd : CounterCommand key cmd missing move) (hv : Fits v)
    (hstored : Stored ht key (.str (decimal v))) :
    Ensures (IndexFault mc) (interpret mc ht cmd)
      (fun r => ExactOrRefused key v (move v) r ↔ Fits (move v)) := by
  refine (hcmd.interpret_number h.storeOk hv hstored).mono ?_
  rintro r ⟨hreply, hkept⟩
  constructor
  · rintro (⟨hfits, _⟩ | ⟨_, hrefused, _⟩)
    · exact hfits
    · exact absurd (hreply.symm.trans hrefused) (reply_integer_ne_err _)
  · intro hfits
    rw [int32_of_bounds hfits.1 hfits.2] at hreply hkept
    exact Or.inl ⟨hfits, hreply, hkept⟩

theorem counter_arithmetic_exact_minimum :
    Ensures (IndexFault machine)
      (do let ht ← run_commands machine [⟨.SET, [cstr "k", cstr "-2147483647"]⟩]
          interpret machine ht ⟨.DECRBY, [cstr "k", cstr "1"]⟩)
      (ExactOrRefused (cstr "k") (-2147483647) (-2147483648)) := by
  have hrun : Ensures (IndexFault machine) (run_commands machine [⟨.SET, [cstr "k", cstr "-2147483647"]⟩])
      (fun ht => TypedAt ht (cstr "k") .STR_T ∧
        htable_get machine ht (cstr "k") = .ok (some (cstr "-2147483647"))) := by
    decide +kernel
  refine hrun.bind_eq ?_
  rintro ht hht ⟨htyped, hget⟩
  have hreach : Reachable machine ht := ⟨_, hht⟩
  have hstored : Stored ht (cstr "k") (.str (decimal (-2147483647))) := by
    have htext : decimal (-2147483647) = cstr "-2147483647" := by decide
    rw [htext]
    exact (htable_get_spec hreach.storeOk htyped).of_eq_ok hget
  have hone : Operand (cstr "1") 1 := ⟨by decide, by decide⟩
  have hfits : Fits (-2147483647) := ⟨by decide, by decide⟩
  refine (counter_arithmetic_exact machine hreach (.decrby hone) hfits hstored).mono ?_
  intro r hr
  exact hr.mpr ⟨by decide, by decide⟩

/-- `INCR` of the largest `int` neither answers its successor nor refuses. -/
theorem counter_wraps :
    ¬ Ensures (IndexFault machine)
      (do let ht ← run_commands machine [⟨.SET, [cstr "k", cstr "2147483647"]⟩]
          interpret machine ht ⟨.INCR, [cstr "k"]⟩)
      (ExactOrRefused (cstr "k") 2147483647 2147483648) := by
  have hreply : Ensures (fun _ => False)
      (do let ht ← run_commands machine [⟨.SET, [cstr "k", cstr "2147483647"]⟩]
          interpret machine ht ⟨.INCR, [cstr "k"]⟩)
      (fun r => r.1 = reply_integer (-2147483648)) := by
    decide +kernel
  intro hexact
  obtain ⟨r, hr, hwrapped⟩ := hreply.exists_ok (fun _ hfalse => hfalse)
  rcases hexact.of_eq_ok hr with ⟨hfits, _⟩ | ⟨_, hrefused, _⟩
  · exact absurd hfits.2 (by decide)
  · exact reply_integer_ne_err _ (hwrapped.symm.trans hrefused)

end hyperkv
