import HyperKV.OpenAddressing.Distinct
import HyperKV.Set

open Outcome OpenAddressing

namespace hyperkv

variable {mc : Machine} {set : CSet}

theorem set_lawful (mc : Machine) : (set_scheme mc).Lawful (IndexOverflow mc) (Sized mc) :=
  scheme_lawful mc (fun _ => Function.injective_id)

/-- What every reachable set satisfies: its members are found by their probes,
    and its size is one the machine can count. -/
structure SetOk (mc : Machine) (set : CSet) : Prop where
  findable : (set_scheme mc).Findable set
  sized : Sized mc set.size

theorem set_init_ok (mc : Machine) {size : Int} (hsize : mc.load = .int32 → size ≤ 2147483647) :
    SetOk mc (set_init size) := by
  refine ⟨Scheme.findable_empty _, ?_⟩
  rw [set_init, Table.empty_size]
  exact init_size_sized mc hsize

theorem set_add_spec (h : SetOk mc set) (m : CStr) :
    Ensures (IndexFault mc) (set_add mc set m)
      (fun r => (set_scheme mc).Inserted (Sized mc) set m r.1 r.2) :=
  fromTable_ensures (Scheme.insert_ensures (set_lawful mc) 0 h.findable h.sized m)

theorem set_rem_spec (h : SetOk mc set) (m : CStr) :
    Ensures (IndexFault mc) (set_rem mc set m)
      (fun r => (set_scheme mc).Removed (Sized mc) set m r.1 r.2) :=
  fromTable_ensures (Scheme.remove_ensures (set_lawful mc) 0 h.findable h.sized m)

theorem set_ismember_spec (h : SetOk mc set) (m : CStr) :
    Ensures (IndexFault mc) (set_ismember mc set m) (fun b => b = true ↔ m ∈ set_members set) := by
  refine fromTable_ensures (Ensures.map ((Scheme.search_ensures (set_lawful mc) h.findable m).mono ?_))
  intro r hr
  cases r with
  | none => exact iff_of_false Bool.false_ne_true (fun hm => hr m hm rfl)
  | some found =>
    obtain ⟨hslot, hkey⟩ := hr
    exact iff_of_true rfl (hkey ▸ Table.mem_items.mpr ⟨_, hslot⟩)

theorem set_add_ok {m : CStr} {r : CSet × Bool}
    (h : (set_scheme mc).Inserted (Sized mc) set m r.1 r.2) : SetOk mc r.1 :=
  ⟨h.findable, h.sized⟩

theorem set_rem_ok {m : CStr} {r : CSet × Bool} (hset : SetOk mc set)
    (h : (set_scheme mc).Removed (Sized mc) set m r.1 r.2) : SetOk mc r.1 := by
  obtain ⟨set', found⟩ := r
  cases found with
  | false =>
    obtain ⟨rfl, _⟩ := h
    exact hset
  | true =>
    obtain ⟨p, x, _, _, hresized⟩ := h
    exact ⟨hresized.findable, hresized.sized⟩

theorem setOp_step_ok (h : SetOk mc set) (op : SetOp) :
    Ensures (IndexFault mc) (op.step mc set) (SetOk mc) := by
  cases op with
  | add m => exact Ensures.map ((set_add_spec h m).mono (fun _ hr => set_add_ok hr))
  | rem m => exact Ensures.map ((set_rem_spec h m).mono (fun _ hr => set_rem_ok h hr))

/-! ## Duplicates -/

/-- A set that lists no member twice. -/
def NoDuplicates (mc : Machine) (set : CSet) : Prop := SetOk mc set ∧ (set_members set).Nodup

theorem set_distinct_iff : (set_scheme mc).Distinct set ↔ (set_members set).Nodup := by
  rw [Scheme.Distinct, show (set_scheme mc).key = id from rfl, List.map_id]
  exact Iff.rfl

/-- `set_add` does not meet a tombstone ahead of the member it is to add. -/
def meets_no_tombstone (mc : Machine) (set : CSet) : SetOp → Bool
  | .add m => !(decide (m ∈ set_members set) && (set_scheme mc).vacatedBefore set m)
  | .rem _ => true

/-- Ahead of every tombstone, a stored member is found and not added again. -/
theorem set_add_member (h : SetOk mc set) {m : CStr} (hmeets : meets_no_tombstone mc set (.add m))
    (hmem : m ∈ set_members set) :
    Ensures (IndexFault mc) (set_add mc set m) (fun r => r = (set, false)) := by
  refine (set_add_spec h m).mono ?_
  rintro ⟨set', added⟩ hr
  cases added with
  | false => exact Prod.ext (hr.unchanged rfl) rfl
  | true =>
    obtain ⟨p, htakes⟩ := hr.takes rfl
    have hvacated := htakes.vacatedBefore h.findable rfl hmem rfl
    simp [meets_no_tombstone, hmem, show (set_scheme mc).vacatedBefore set m = true from hvacated] at hmeets

theorem set_add_noDuplicates (h : NoDuplicates mc set) {m : CStr}
    (hmeets : meets_no_tombstone mc set (.add m)) :
    Ensures (IndexFault mc) (set_add mc set m) (fun r => NoDuplicates mc r.1) := by
  by_cases hmem : m ∈ set_members set
  · refine (set_add_member h.1 hmeets hmem).mono ?_
    rintro r rfl
    exact h
  · refine (set_add_spec h.1 m).mono (fun r hr => ⟨set_add_ok hr, ?_⟩)
    refine set_distinct_iff.mp (hr.distinct (set_distinct_iff.mpr h.2) (fun y hy heq => hmem ?_))
    have hym : y = m := heq
    exact hym ▸ hy

theorem set_rem_noDuplicates (h : NoDuplicates mc set) (m : CStr) :
    Ensures (IndexFault mc) (set_rem mc set m) (fun r => NoDuplicates mc r.1 ∧ m ∉ set_members r.1) := by
  refine (set_rem_spec h.1 m).mono (fun r hr => ?_)
  obtain ⟨hdistinct, hgone⟩ := hr.distinct (set_distinct_iff.mpr h.2)
  exact ⟨⟨set_rem_ok h.1 hr, set_distinct_iff.mp hdistinct⟩, fun hm => hgone m hm rfl⟩

theorem setOp_step_noDuplicates (h : NoDuplicates mc set) (op : SetOp)
    (hmeets : meets_no_tombstone mc set op) : Ensures (IndexFault mc) (op.step mc set) (NoDuplicates mc) := by
  cases op with
  | add m => exact Ensures.map (set_add_noDuplicates h hmeets)
  | rem m => exact Ensures.map ((set_rem_noDuplicates h m).mono (fun _ hr => hr.1))

theorem set_init_noDuplicates (mc : Machine) : NoDuplicates mc (set_init HT_BASE_SIZE) := by
  refine ⟨set_init_ok mc (fun _ => by decide), ?_⟩
  rw [set_members, set_init, Table.items_empty]
  exact List.nodup_nil

/-- Runs of additions and removals in which no addition meets a tombstone ahead
    of the member it is to add: no member is listed twice, a member is not added
    again, and a removed member is gone. -/
theorem set_run_noDuplicates (mc : Machine) (ops : List SetOp)
    (hmeets : meets (SetOp.step mc) (meets_no_tombstone mc) (set_init HT_BASE_SIZE) ops) :
    Ensures (IndexFault mc) (set_run mc ops) (fun set =>
      (set_members set).Nodup ∧
      (∀ m, m ∈ set_members set → meets_no_tombstone mc set (.add m) →
        Ensures (IndexFault mc) (set_add mc set m) (fun r => r.2 = false)) ∧
      ∀ m, Ensures (IndexFault mc) (set_rem mc set m) (fun r =>
        Ensures (IndexFault mc) (set_ismember mc r.1 m) (fun b => b = false))) := by
  refine (Ensures.invariant (NoDuplicates mc) (fun _ op hset hop => setOp_step_noDuplicates hset op hop) ops _
    (set_init_noDuplicates mc) hmeets).mono ?_
  intro set hset
  refine ⟨hset.2, fun m hmem hop => ?_, fun m => ?_⟩
  · exact (set_add_member hset.1 hop hmem).mono (fun r hr => by rw [hr])
  · refine (set_rem_noDuplicates hset m).mono (fun r hr => ?_)
    exact (set_ismember_spec hr.1.1 m).mono (fun b hb => Bool.eq_false_iff.mpr (fun hb' => hr.2 (hb.mp hb')))

theorem set_run_noDuplicates_reused :
    Ensures (IndexFault machine)
      (set_run machine [.add (cstr "a"), .add (cstr "b"), .rem (cstr "a"), .add (cstr "c"), .add (cstr "c")])
      (fun set =>
        (set_members set).Nodup ∧
        (∀ m, m ∈ set_members set → meets_no_tombstone machine set (.add m) →
          Ensures (IndexFault machine) (set_add machine set m) (fun r => r.2 = false)) ∧
        ∀ m, Ensures (IndexFault machine) (set_rem machine set m) (fun r =>
          Ensures (IndexFault machine) (set_ismember machine r.1 m) (fun b => b = false))) :=
  set_run_noDuplicates machine _ (by decide +kernel)

/-- Among five slots, `f` probes the slot that `a` vacated before its own. -/
theorem set_run_duplicates :
    ¬ Ensures (IndexFault machine)
      (set_run machine [.add (cstr "a"), .add (cstr "f"), .rem (cstr "a"), .add (cstr "f")])
      (fun set => (set_members set).Nodup) := by
  decide +kernel

/-! ## Probes and the scan -/

theorem setOps_ok (h : SetOk mc set) (ops : List SetOp) :
    Ensures (IndexFault mc) (ops.foldlM (SetOp.step mc) set) (SetOk mc) :=
  (Ensures.foldlM (fun _ set => SetOk mc set) (fun op _ _ hset => setOp_step_ok hset op) ops set h)

/-- A removal answers whether the member was there. -/
theorem set_rem_removes (h : SetOk mc set) (m : CStr) :
    Ensures (IndexFault mc) (set_rem mc set m) (fun r => r.2 = true ↔ m ∈ set_members set) := by
  refine (set_rem_spec h m).mono ?_
  rintro ⟨set', found⟩ hr
  cases found with
  | false =>
    obtain ⟨_, hnone⟩ := hr
    exact iff_of_false Bool.false_ne_true (fun hm => hnone m hm rfl)
  | true =>
    obtain ⟨p, x, hslot, hkey, _⟩ := hr
    exact iff_of_true rfl (hkey ▸ Table.mem_items.mpr ⟨p, hslot⟩)

/-- With exact index arithmetic: in every set that additions and removals reach,
    the probe for a string answers whether the scan lists it, and a removal
    answers what the probe does. -/
theorem set_probe_eq_scan (load : IntArith) (casts : Casts) {size : Int} (hsize : size ≤ 2147483647) (ops : List SetOp) :
    ∃ set, ops.foldlM (SetOp.step ⟨.exact, load, casts⟩) (set_init size) = .ok set ∧
      ∀ m, ∃ present set', set_ismember ⟨.exact, load, casts⟩ set m = .ok present ∧
        set_rem ⟨.exact, load, casts⟩ set m = .ok (set', present) ∧ (present = true ↔ m ∈ set_members set) := by
  have hnone := not_indexFault load casts
  obtain ⟨set, hrun, hok⟩ := (setOps_ok (set_init_ok ⟨.exact, load, casts⟩ (fun _ => hsize)) ops).exists_ok hnone
  refine ⟨set, hrun, fun m => ?_⟩
  obtain ⟨present, hprobe, hpresent⟩ := (set_ismember_spec hok m).exists_ok hnone
  obtain ⟨⟨set', removed⟩, hrem, hremoved⟩ := (set_rem_removes hok m).exists_ok hnone
  have hsame : removed = present := Bool.eq_iff_iff.mpr (hremoved.trans hpresent.symm)
  subst hsame
  exact ⟨removed, set', hprobe, hrem, hpresent⟩

/-- With a tombstone on the path of a member that collides. -/
theorem set_probe_eq_scan_reused :
    ∃ set, [SetOp.add (cstr "a"), .add (cstr "f"), .rem (cstr "a"), .add (cstr "k")].foldlM
        (SetOp.step ⟨.exact, .int32, none⟩) (set_init HT_BASE_SIZE) = .ok set ∧
      ∀ m, ∃ present set', set_ismember ⟨.exact, .int32, none⟩ set m = .ok present ∧
        set_rem ⟨.exact, .int32, none⟩ set m = .ok (set', present) ∧ (present = true ↔ m ∈ set_members set) :=
  set_probe_eq_scan .int32 none (by decide) _

end hyperkv
