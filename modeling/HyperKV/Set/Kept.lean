import HyperKV.Set.Members

open Outcome OpenAddressing

namespace hyperkv

variable {mc : Machine} {set : CSet}

/-- Every insertion that the operation makes, and every one of the resizes it
    triggers, meets a slot it may take or the member itself. -/
def set_lands (mc : Machine) (set : CSet) : SetOp → Bool
  | .add m => (set_scheme mc).lands 1 set m
  | .rem m => (set_scheme mc).shrinkLands (set_scheme mc).hasSpot 1 set m

theorem set_add_lands (h : SetOk mc set) {m : CStr} (hlands : set_lands mc set (.add m)) :
    Ensures (IndexFault mc) (set_add mc set m) (fun r =>
      (set_scheme mc).Inserted (Sized mc) set m r.1 r.2 ∧
        ∀ y, y ∈ set_members r.1 ↔ y = m ∨ y ∈ set_members set) :=
  fromTable_ensures (Scheme.lands_ensures (set_lawful mc) 0 h.findable h.sized hlands)

theorem set_rem_lands (h : SetOk mc set) {m : CStr} (hlands : set_lands mc set (.rem m)) :
    Ensures (IndexFault mc) (set_rem mc set m) (fun r => SetOk mc r.1 ∧ match r with
      | (set', false) => set' = set
      | (set', true) => ∃ p, set.slots[p]? = some (.live m) ∧
          (set_scheme mc).Resized (Sized mc) ((set_scheme mc).clear set p) set' ∧
          ∀ y, y ∈ set_members set' ↔ y ∈ set_members ((set_scheme mc).clear set p)) := by
  refine (fromTable_ensures (Scheme.shrinkLands_ensures (set_lawful mc) 0 h.findable h.sized hlands)).mono ?_
  rintro ⟨set', found⟩ hr
  cases found with
  | false => exact ⟨hr.1 ▸ h, hr.1⟩
  | true =>
    obtain ⟨p, x, hslot, rfl, hresized, hmem⟩ := hr
    exact ⟨⟨hresized.findable, hresized.sized⟩, p, hslot, hresized, hmem⟩

/-- A removal that drops nothing keeps every other member. -/
theorem set_rem_keeps (h : SetOk mc set) {m m' : CStr} (hlands : set_lands mc set (.rem m')) (hne : m ≠ m')
    (hmem : m ∈ set_members set) :
    Ensures (IndexFault mc) (set_rem mc set m') (fun r => SetOk mc r.1 ∧ m ∈ set_members r.1) := by
  refine (set_rem_lands h hlands).mono ?_
  rintro ⟨set', found⟩ ⟨hok, hr⟩
  refine ⟨hok, ?_⟩
  cases found with
  | false =>
    cases hr
    exact hmem
  | true =>
    obtain ⟨p, hslot, _, hkept⟩ := hr
    refine (hkept m).mpr ?_
    rcases List.mem_cons.mp ((Table.items_write_deleted hslot).mem_iff.mp hmem) with heq | hin
    · exact absurd heq hne
    · exact hin

theorem setOp_step_keeps (h : SetOk mc set) {m : CStr} {op : SetOp} (hlands : set_lands mc set op)
    (hne : op ≠ .rem m) (hmem : m ∈ set_members set) :
    Ensures (IndexFault mc) (op.step mc set) (fun set' => SetOk mc set' ∧ m ∈ set_members set') := by
  cases op with
  | add m' =>
    exact Ensures.map ((set_add_lands h hlands).mono
      (fun r hr => ⟨set_add_ok hr.1, (hr.2 m).mpr (Or.inr hmem)⟩))
  | rem m' => exact Ensures.map (set_rem_keeps h hlands (fun heq => hne (congrArg SetOp.rem heq.symm)) hmem)

/-- Operations other than its removal keep a member, as long as they land. -/
theorem setOps_keep (h : SetOk mc set) {m : CStr} (ops : List SetOp)
    (hlands : meets (SetOp.step mc) (set_lands mc) set ops) (hops : SetOp.rem m ∉ ops)
    (hmem : m ∈ set_members set) :
    Ensures (IndexFault mc) (ops.foldlM (SetOp.step mc) set)
      (fun set' => SetOk mc set' ∧ m ∈ set_members set') := by
  refine (Ensures.foldlM (fun rest set => SetOk mc set ∧ m ∈ set_members set ∧
    meets (SetOp.step mc) (set_lands mc) set rest ∧ SetOp.rem m ∉ rest) ?_ ops set
    ⟨h, hmem, hlands, hops⟩).mono (fun _ hset => ⟨hset.1, hset.2.1⟩)
  rintro op rest set ⟨hok, hin, hmeets, hnot⟩
  rw [meets_cons] at hmeets
  rw [List.mem_cons, not_or] at hnot
  exact ((setOp_step_keeps hok hmeets.1 (Ne.symm hnot.1) hin).and hmeets.2).mono
    (fun set' hr => ⟨hr.1.1, hr.1.2, hr.2, hnot.2⟩)

/-- In a run that lands everywhere, adding an absent member succeeds, and it
    stays a member until it is removed. -/
theorem set_run_kept (mc : Machine) (before after : List SetOp) (m : CStr)
    (hlands : meets (SetOp.step mc) (set_lands mc) (set_init HT_BASE_SIZE) (before ++ .add m :: after))
    (hafter : SetOp.rem m ∉ after) :
    Ensures (IndexFault mc) (set_run mc before) (fun set =>
      (set_ismember mc set m = .ok false →
        Ensures (IndexFault mc) (set_add mc set m) (fun r => r.2 = true)) ∧
      Ensures (IndexFault mc) ((SetOp.add m :: after).foldlM (SetOp.step mc) set)
        (fun set' => Ensures (IndexFault mc) (set_ismember mc set' m) (fun b => b = true))) := by
  rw [meets_append] at hlands
  refine ((Ensures.invariant (SetOk mc) (fun _ op h _ => setOp_step_ok h op) before _
    (set_init_ok mc (fun _ => by decide)) hlands.1).and hlands.2).mono ?_
  rintro set ⟨hok, hmeets⟩
  rw [meets_cons] at hmeets
  have hadd := set_add_lands hok hmeets.1
  constructor
  · intro habsent
    refine hadd.mono ?_
    rintro ⟨set', added⟩ ⟨hinserted, hmem⟩
    cases added with
    | true => rfl
    | false =>
      -- a refused addition leaves the set alone, so the member was there
      have hsame : set' = set := hinserted.unchanged rfl
      subst hsame
      exact absurd ((hmem m).mpr (Or.inl rfl))
        (fun hin => Bool.false_ne_true (((set_ismember_spec hok m).of_eq_ok habsent).mpr hin))
  · rw [List.foldlM_cons]
    refine ((Ensures.map (R := fun set' => SetOk mc set' ∧ m ∈ set_members set')
      (hadd.mono (fun r hr => ⟨set_add_ok hr.1, (hr.2 m).mpr (Or.inl rfl)⟩))).and hmeets.2).bind ?_
    rintro set' ⟨⟨hok', hmem⟩, hrest⟩
    refine (setOps_keep hok' after hrest hafter hmem).mono ?_
    rintro set'' ⟨hok'', hmem''⟩
    exact (set_ismember_spec hok'' m).mono (fun b hb => hb.mpr hmem'')

theorem set_run_kept_grown :
    Ensures (IndexFault machine) (set_run machine [.add (cstr "a"), .add (cstr "b")]) (fun set =>
      (set_ismember machine set (cstr "c") = .ok false →
        Ensures (IndexFault machine) (set_add machine set (cstr "c")) (fun r => r.2 = true)) ∧
      Ensures (IndexFault machine)
        ([.add (cstr "c"), .rem (cstr "a"), .add (cstr "e")].foldlM (SetOp.step machine) set)
        (fun set' => Ensures (IndexFault machine) (set_ismember machine set' (cstr "c"))
          (fun b => b = true))) :=
  set_run_kept machine _ _ _ (by decide +kernel) (by decide)

/-- Two slots, one of them taken by `b`: every probe of `d` looks at that slot,
    and `d` is refused although it is no member. -/
theorem set_run_dropped :
    ¬ Ensures (IndexFault machine) (set_run machine [.add (cstr "b")]) (fun set =>
      (set_ismember machine set (cstr "d") = .ok false →
        Ensures (IndexFault machine) (set_add machine set (cstr "d")) (fun r => r.2 = true)) ∧
      Ensures (IndexFault machine) ([.add (cstr "d")].foldlM (SetOp.step machine) set)
        (fun set' => Ensures (IndexFault machine) (set_ismember machine set' (cstr "d"))
          (fun b => b = true))) := by
  decide +kernel

end hyperkv
