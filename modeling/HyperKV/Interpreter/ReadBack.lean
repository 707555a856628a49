import HyperKV.Htable.Map
import HyperKV.Interpreter.Faults

open Outcome OpenAddressing

namespace hyperkv

variable {mc : Machine} {ht : HashTable}

/-- The keys that `SET` and `MSET` set, with their values, in order. -/
def Command.writes (cmd : Command) : List (CStr × CStr) :=
  match cmd.type, cmd.argv with
  | .SET, [key] => [(key, [])]
  | .SET, [key, value] => [(key, value)]
  | .MSET, argv => pairs argv
  | _, _ => []

def write_step (mc : Machine) (ht : HashTable) (w : CStr × CStr) : Exec HashTable :=
  Prod.fst <$> htable_set mc ht w.1 w.2

/-- The value given last to a key. -/
def Command.last_write (cmd : Command) (key : CStr) : Option CStr :=
  last_set key (cmd.writes.map fun w => .set w.1 w.2)

/-- Every write of the command lands, in the store that it finds. -/
def writes_land (mc : Machine) (ht : HashTable) (cmd : Command) : Bool :=
  meets (write_step mc) (fun ht w => htable_lands mc ht (.set w.1 w.2)) ht cmd.writes

/-- Setting one string where nothing is dropped: a key of another type is left
    alone, with all of the store, and every other key keeps its value. -/
theorem htable_set_kept (h : StoreOk mc ht) {key value : CStr}
    (hlands : htable_lands mc ht (.set key value)) :
    Ensures (IndexFault mc) (htable_set mc ht key value) (fun r => StoreOk mc r.1 ∧
      (TypedAt ht key .STR_T → Stored r.1 key (.str value)) ∧
      (¬ TypedAt ht key .STR_T → r.1 = ht) ∧
      ∀ k kept, k ≠ key → Stored ht k kept → Stored r.1 k kept) := by
  by_cases htyped : TypedAt ht key .STR_T
  · refine ((htable_set_storeOk h key value).and (htable_set_lands h.table hlands htyped).anyFault).mono ?_
    rintro r ⟨hok, _, hmem⟩
    refine ⟨hok, fun _ => ⟨_, (hmem _).mpr (Or.inl rfl), rfl, rfl⟩, fun hother => absurd htyped hother, ?_⟩
    rintro k kept hne ⟨item, hin, rfl, hvalue⟩
    exact ⟨item, (hmem item).mpr (Or.inr ⟨hin, hne⟩), rfl, hvalue⟩
  · refine (htable_set_cases h.table key value).mono ?_
    rintro r (⟨habsent, _⟩ | ⟨p, item, _, _, rfl⟩ | ⟨p, item, hold, htype, _⟩)
    · exact absurd (habsent.typedAt _) htyped
    · exact ⟨h, fun htyped' => absurd htyped' htyped, fun _ => rfl, fun _ _ _ hstored => hstored⟩
    · refine absurd (fun other hmem hkey => ?_) htyped
      rw [hold.unique h.table hmem hkey, htype]

theorem Stored.not_string {key : CStr} {value : Value} (h : Stored ht key value) (hok : StoreOk mc ht)
    (hother : value.type ≠ .STR_T) : ¬ TypedAt ht key .STR_T := by
  obtain ⟨item, hmem, hkey, rfl⟩ := h
  intro htyped
  exact hother ((hok.items item hmem).type_eq.trans (htyped item hmem hkey))

/-- After some of the writes: a key that was missing or a string holds what was
    last written to it, and a key of another type its old value. -/
structure Written (mc : Machine) (ht : HashTable) (ht' : HashTable) (m : StrMap) : Prop where
  ok : StoreOk mc ht'
  visible : ∀ key value, TypedAt ht key .STR_T → m key = some value → Stored ht' key (.str value)
  typed : ∀ key, TypedAt ht key .STR_T → TypedAt ht' key .STR_T
  skipped : ∀ key value, value.type ≠ .STR_T → Stored ht key value → Stored ht' key value

theorem Written.set {ht' : HashTable} {m : StrMap} (h : Written mc ht ht' m) {key value : CStr}
    (hlands : htable_lands mc ht' (.set key value)) :
    Ensures (IndexFault mc) (htable_set mc ht' key value)
      (fun r => Written mc ht r.1 (m.step (.set key value))) := by
  refine ((htable_set_kept h.ok hlands).and (htable_set_spec h.ok.table key value).anyFault).mono ?_
  rintro r ⟨⟨hok, hset, hskip, hkept⟩, _, hmem⟩
  refine ⟨hok, fun k v htyped hm => ?_, fun k htyped => ?_, fun k v hother hstored => ?_⟩
  · simp only [StrMap.step] at hm
    by_cases hkey : k = key
    · rw [if_pos hkey] at hm
      cases hm
      rw [hkey] at htyped ⊢
      exact hset (h.typed key htyped)
    · rw [if_neg hkey] at hm
      exact hkept k _ hkey (h.visible k v htyped hm)
  · intro item hin hkey
    rcases hmem item hin with rfl | hold
    · rfl
    · exact h.typed k htyped item hold hkey
  · have hold := h.skipped k v hother hstored
    by_cases hkey : k = key
    · rw [hkey] at hold ⊢
      rwa [hskip (hold.not_string h.ok hother)]
    · exact hkept k v hkey hold

theorem writes_written (h : StoreOk mc ht) {cmd : Command} (hlands : writes_land mc ht cmd) :
    Ensures (IndexFault mc) (cmd.writes.foldlM (write_step mc) ht)
      (fun ht' => Written mc ht ht' cmd.last_write) := by
  have hlast : cmd.last_write =
      cmd.writes.foldl (fun m w => StrMap.step m (.set w.1 w.2)) (fun _ => none) := by
    funext key
    rw [Command.last_write, last_set_eq, List.foldl_map]
  rw [hlast]
  refine Ensures.simulate (Written mc ht) _ (fun ht' m w hwritten hw => ?_) cmd.writes ht (fun _ => none) ?_
    hlands
  · exact Ensures.map (hwritten.set hw)
  · exact ⟨h, (fun _ _ _ hm => by cases hm), fun _ htyped => htyped, fun _ _ _ hstored => hstored⟩

theorem interpret_get (h : StoreOk mc ht) {key : CStr} {str : Option CStr} (hstr : StringAt ht key str) :
    Ensures (Missed mc ht key) (interpret mc ht ⟨.GET, [key]⟩) (fun r => r = (reply_string str, ht)) := by
  rw [interpret]
  change Ensures _ (exec_get mc ht ⟨.GET, [key]⟩) _
  rw [exec_get]
  refine typed_ensures h key (fun _ => id) rfl rfl rfl (hstr.typedAt h)
    ((htable_get_stringAt h hstr).bind ?_)
  rintro _ rfl
  rfl

/-- Reading a string that is there meets no fault at all. -/
theorem interpret_get_stored (h : StoreOk mc ht) {key value : CStr} (hstored : Stored ht key (.str value)) :
    interpret mc ht ⟨.GET, [key]⟩ = .ok (reply_string (some value), ht) :=
  eq_of_present hstored.not_absent (@interpret_get mc ht h key (some value) hstored)

theorem map_write_step (key value : CStr) :
    (do let ht' ← Prod.fst <$> htable_set mc ht key value
        return (reply_string (some (cstr "OK")), ht') : Exec (CStr × HashTable)) =
      (fun ht' => (reply_string (some (cstr "OK")), ht')) <$> [(key, value)].foldlM (write_step mc) ht := by
  rw [List.foldlM_cons, write_step]
  cases htable_set mc ht key value <;> rfl

/-- `SET` and `MSET` either refuse their arguments or make their writes and
    answer `OK`. -/
theorem interpret_writes (ht : HashTable) {cmd : Command} (hcmd : cmd.type = .SET ∨ cmd.type = .MSET) :
    interpret mc ht cmd =
        (fun ht' => (reply_string (some (cstr "OK")), ht')) <$> cmd.writes.foldlM (write_step mc) ht ∨
      ∃ expected, interpret mc ht cmd = .ok (reply_err_argc cmd.argc expected, ht) := by
  obtain ⟨type, argv⟩ := cmd
  rcases hcmd with rfl | rfl
  · rcases argv with _ | ⟨key, _ | ⟨value, _ | ⟨extra, rest⟩⟩⟩
    · exact Or.inl rfl
    · exact Or.inl (map_write_step key [])
    · exact Or.inl (map_write_step key value)
    · exact Or.inr ⟨"0..2", rfl⟩
  · by_cases hargc : (decide (argv.length ≥ 2) && decide (argv.length % 2 = 0)) = true
    · left
      change exec_mset mc ht _ = _
      rw [exec_mset, with_argc]
      exact if_pos hargc
    · exact Or.inr ⟨"2+", if_neg hargc⟩

/-- An acknowledged write is visible where it lands: `GET` of every key that was
    missing or held a string returns the value given last. Keys of another type
    are skipped, and keep their values under the same `OK`. -/
theorem interpret_write_visible (mc : Machine) {ht : HashTable} (h : Reachable mc ht) {cmd : Command}
    (hcmd : cmd.type = .SET ∨ cmd.type = .MSET) (hlands : writes_land mc ht cmd) :
    Ensures (IndexFault mc) (interpret mc ht cmd) (fun r => r.1 = reply_string (some (cstr "OK")) →
      (∀ key value, TypedAt ht key .STR_T → cmd.last_write key = some value →
        interpret mc r.2 ⟨.GET, [key]⟩ = .ok (reply_string (some value), r.2)) ∧
      ∀ key value, value.type ≠ .STR_T → Stored ht key value → Stored r.2 key value) := by
  rcases interpret_writes ht hcmd with heq | ⟨expected, heq⟩
  · rw [heq]
    refine Ensures.map ((writes_written h.storeOk hlands).mono ?_)
    intro ht' hwritten _
    refine ⟨fun key value htyped hlast => interpret_get_stored hwritten.ok ?_, hwritten.skipped⟩
    exact hwritten.visible key value htyped hlast
  · rw [heq]
    exact fun hok => by cases hok

theorem interpret_write_visible_mset :
    Ensures (fun _ => False)
      (interpret machine (htable_init HT_BASE_SIZE)
        ⟨.MSET, [cstr "a", cstr "1", cstr "b", cstr "2", cstr "a", cstr "3"]⟩)
      (fun r => interpret machine r.2 ⟨.GET, [cstr "a"]⟩ = .ok (reply_string (some (cstr "3")), r.2)) := by
  have hanswered : Ensures (fun _ => False)
      (interpret machine (htable_init HT_BASE_SIZE)
        ⟨.MSET, [cstr "a", cstr "1", cstr "b", cstr "2", cstr "a", cstr "3"]⟩)
      (fun r => r.1 = reply_string (some (cstr "OK"))) := by
    decide +kernel
  refine (hanswered.and
    (interpret_write_visible machine ⟨[], rfl⟩ (Or.inr rfl) (by decide +kernel)).anyFault).mono ?_
  rintro r ⟨hok, hvisible⟩
  exact (hvisible hok).1 _ _ (by decide +kernel) (by decide)

/-- `SET` answers `OK` for a key that holds a hash, which `GET` then refuses. -/
theorem interpret_write_skipped :
    ¬ Ensures (IndexFault machine)
      (do let ht ← run_commands machine [⟨.HSET, [cstr "b", cstr "1", cstr "2"]⟩]
          let r ← interpret machine ht ⟨.SET, [cstr "b", cstr "hello"]⟩
          let answer ← interpret machine r.2 ⟨.GET, [cstr "b"]⟩
          return (r.1, answer.1))
      (fun answers => answers.1 = reply_string (some (cstr "OK")) →
        answers.2 = reply_string (some (cstr "hello"))) := by
  decide +kernel

end hyperkv
