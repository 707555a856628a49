import HyperKV.Htable.Load
import HyperKV.Htable.Map
import HyperKV.Htable.ProbeIndex
import HyperKV.OpenAddressing.Reaches
import HyperKV.Set.Kept

open Outcome OpenAddressing

namespace hyperkv

/-- The step of the key has no factor in common with the number of slots. For a
    prime number of slots, it is not zero. -/
def reaches (key : CStr) (n : Nat) : Bool := decide (n.Coprime (sdbm key n).toNat)

theorem scheme_reaches {α : Type} {item_key : α → CStr} {checks : Bool} (key : CStr) (n : Nat)
    (hn : Sized unbounded n) (h : reaches key n) : (scheme unbounded item_key checks).Covers key n := by
  intro p hp
  have hbij := (doubleHash_bijOn_iff (djb2 key n).toNat hn.1).mpr (of_decide_eq_true h)
  obtain ⟨i, hi, heq⟩ := hbij.surjOn hp
  exact ⟨i, hi, (hash_func_exact .exact machine.cast key hn.1 i).trans (congrArg Nat.cast heq)⟩

/-! ## Tables -/

/-- The keys that the operation inserts, and those that a resize inserts anew, reach
    every slot. Writing to a stored key inserts nothing. -/
def htable_reaches (ht : HashTable) : HashOp → Bool
  | .set key value => ht.items.any (fun item => item.key = key) ||
    (htable_scheme unbounded).insertReaches reaches ht ⟨.STR_T, key, .str value⟩
  | .del key => (htable_scheme unbounded).removeReaches reaches ht key

theorem htable_reaches_lands {ht : HashTable} (h : RoomyTable ht) {op : HashOp}
    (hop : htable_reaches ht op) :
    htable_lands unbounded ht op := by
  have hlaws := scheme_keepsLight HashTableItem.key (α := HashTableItem Value) false
  cases op with
  | set key value =>
    rcases Bool.or_eq_true_iff.mp hop with hany | hinsert
    · exact Bool.or_eq_true_iff.mpr (.inl hany)
    · exact Bool.or_eq_true_iff.mpr (.inr
        (h.2.lands (htable_lawful unbounded) hlaws scheme_reaches h.2.light.2 hinsert))
  | del key => exact h.2.shrinkLands (htable_lawful unbounded) hlaws scheme_reaches hop

/-! ## Sets -/

def set_reaches (set : CSet) : SetOp → Bool
  | .add m => (set_scheme unbounded).insertReaches reaches set m
  | .rem m => (set_scheme unbounded).removeReaches reaches set m

theorem set_reaches_lands {set : CSet} (h : RoomySet set) {op : SetOp} (hop : set_reaches set op) :
    set_lands unbounded set op := by
  have hlaws := scheme_keepsLight (α := CStr) id true
  cases op with
  | add m => exact h.2.lands (set_lawful unbounded) hlaws scheme_reaches h.2.light.2 hop
  | rem m => exact h.2.shrinkLands (set_lawful unbounded) hlaws scheme_reaches hop

/-! ## Runs -/

theorem htable_run_reaches {ops : List HashOp}
    (hreaches : meets (HashOp.step unbounded) htable_reaches (htable_init HT_BASE_SIZE) ops) :
    ∃ ht, htable_run unbounded ops = .ok ht ∧
      ∀ key, htable_get unbounded ht key = .ok (last_set key ops) := by
  have hnever := not_indexFault .exact machine.cast
  have hlands := meets_mono RoomyTable (fun _ op h => (hashOp_step_roomy h op).anyFault)
    (fun _ _ h hop => htable_reaches_lands h hop) (htable_init_roomy _) hreaches
  obtain ⟨ht, hrun, hok, hrefines⟩ := (htable_run_refines unbounded ops hlands).exists_ok hnever
  refine ⟨ht, hrun, fun key => ?_⟩
  obtain ⟨r, hr, heq⟩ := (htable_get_refines hok hrefines key).exists_ok hnever
  rw [hr, heq, last_set_eq]

theorem set_run_reaches {before after : List SetOp} {m : CStr}
    (hreaches : meets (SetOp.step unbounded) set_reaches (set_init HT_BASE_SIZE)
      (before ++ .add m :: after))
    (hafter : SetOp.rem m ∉ after) : ∃ set, set_run unbounded (before ++ .add m :: after) = .ok set ∧
      set_ismember unbounded set m = .ok true := by
  have hnever := not_indexFault .exact machine.cast
  have hlands := meets_mono RoomySet (fun _ op h => (setOp_step_roomy h op).anyFault)
    (fun _ _ h hop => set_reaches_lands h hop) (set_init_roomy _) hreaches
  have hroomy := Ensures.foldlM (fun _ set => RoomySet set)
    (fun op _ _ h => setOp_step_roomy h op) before _
    (set_init_roomy HT_BASE_SIZE)
  obtain ⟨set, hbefore, hok, _⟩ := hroomy.exists_ok hnever
  have hrest := ((meets_append _ _ _).mp hlands).2.of_eq_ok hbefore
  rw [meets_cons] at hrest
  -- the addition puts the member in, and the operations behind it keep it
  obtain ⟨set₁, hadd, hok₁, hmem₁⟩ :=
    (Ensures.map (R := fun set' => SetOk unbounded set' ∧ m ∈ set_members set')
      ((set_add_lands hok hrest.1).mono fun r hr =>
        ⟨set_add_ok hr.1, (hr.2 m).mpr (.inl rfl)⟩)).exists_ok hnever
  obtain ⟨set₂, hkept, hok₂, hmem₂⟩ :=
    (setOps_keep hok₁ after (hrest.2.of_eq_ok hadd) hafter hmem₁).exists_ok hnever
  refine ⟨set₂, ?_, ?_⟩
  · rw [set_run, List.foldlM_append, hbefore, ok_bind, List.foldlM_cons]
    change (Prod.fst <$> set_add unbounded set m) >>= _ = _
    rw [hadd]
    exact hkept
  · obtain ⟨b, hb, hiff⟩ := (set_ismember_spec hok₂ m).exists_ok hnever
    rw [hb, hiff.mpr hmem₂]

/-- With exact arithmetic nothing is ever lost but through a step of the double
    hashing that has a factor in common with the number of slots: where no insertion
    meets one, every lookup after every run finds what was stored last, and every
    member of a set stays until it is removed. -/
theorem reached_not_lost :
    (∀ ops : List HashOp, meets (HashOp.step unbounded) htable_reaches (htable_init HT_BASE_SIZE) ops →
      ∃ ht, htable_run unbounded ops = .ok ht ∧
        ∀ key, htable_get unbounded ht key = .ok (last_set key ops)) ∧
    ∀ (before after : List SetOp) (m : CStr),
      meets (SetOp.step unbounded) set_reaches (set_init HT_BASE_SIZE) (before ++ .add m :: after) →
      SetOp.rem m ∉ after → ∃ set, set_run unbounded (before ++ .add m :: after) = .ok set ∧
        set_ismember unbounded set m = .ok true :=
  ⟨fun _ hreaches => htable_run_reaches hreaches,
    fun _ _ _ hreaches hafter => set_run_reaches hreaches hafter⟩

theorem reached_not_lost_grown :
    (∃ ht, htable_run unbounded [.set (cstr "a") (cstr "1"), .set (cstr "c") (cstr "2"),
        .set (cstr "b") (cstr "3"), .del (cstr "a"), .del (cstr "c"), .del (cstr "zzz")] = .ok ht ∧
      ∀ key, htable_get unbounded ht key = .ok (last_set key [.set (cstr "a") (cstr "1"),
        .set (cstr "c") (cstr "2"), .set (cstr "b") (cstr "3"), .del (cstr "a"), .del (cstr "c"),
        .del (cstr "zzz")])) ∧
    ∃ set, set_run unbounded ([.add (cstr "a")] ++ .add (cstr "c") :: [.add (cstr "c"), .rem (cstr "a")]) =
        .ok set ∧
      set_ismember unbounded set (cstr "c") = .ok true :=
  ⟨reached_not_lost.1 _ (by decide +kernel), reached_not_lost.2 _ _ _ (by decide +kernel) (by decide)⟩

end hyperkv
