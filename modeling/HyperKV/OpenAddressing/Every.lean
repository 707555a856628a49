import HyperKV.OpenAddressing.Table

open Outcome

namespace OpenAddressing

namespace Table

variable {α : Type} {P : α → Prop} {t : Table α}

/-- Every item of the table satisfies `P`. -/
def Every (P : α → Prop) (t : Table α) : Prop := ∀ x, .live x ∈ t.slots → P x

theorem every_items : t.Every P ↔ ∀ x ∈ t.items, P x := by
  refine forall_congr' (fun x => imp_congr_left ?_)
  unfold items
  rw [List.mem_filterMap]
  constructor
  · exact fun hmem => ⟨_, hmem, rfl⟩
  · rintro ⟨s, hmem, hitem⟩
    cases s with
    | live y =>
      cases hitem
      exact hmem
    | _ => cases hitem

theorem every_empty (n : Nat) : (empty n).Every P := by
  intro x hmem
  cases (List.mem_replicate.mp hmem).2

theorem Every.write_live {p : Nat} {x : α} (h : t.Every P) (hx : P x) : (t.write p (.live x)).Every P := by
  intro y hmem
  rcases List.mem_or_eq_of_mem_set hmem with hold | heq
  · exact h y hold
  · cases heq
    exact hx

theorem Every.write_deleted {p : Nat} (h : t.Every P) : (t.write p .deleted).Every P := by
  intro y hmem
  rcases List.mem_or_eq_of_mem_set hmem with hold | heq
  · exact h y hold
  · cases heq

end Table

namespace Scheme

variable {K α : Type} {S : Scheme K α} {P : α → Prop} {t : Table α}

/-- Whatever slot a scan stops at came from the array. -/
theorem scan_every {β : Type} {k : K} {stop : Nat → Slot α → Option β} {R : β → Prop}
    (hstop : ∀ p s b, s ∈ t.slots → stop p s = some b → R b) (attempts i : Nat) :
    Ensures AnyFault (S.scan t k stop attempts i) (fun r => ∀ b, r = some b → R b) := by
  induction attempts generalizing i with
  | zero =>
    intro b hb
    cases hb
  | succ attempts ih =>
    unfold scan
    split
    · trivial
    · rename_i p s hslot
      split
      · rename_i b hb
        have hmem : s ∈ t.slots := by
          unfold slotAt at hslot
          split at hslot
          · obtain ⟨s', hget, heq⟩ := Option.map_eq_some_iff.mp hslot
            cases heq
            exact List.mem_of_getElem? hget
          · cases hslot
        intro b' hb'
        cases hb'
        exact hstop p s b hmem hb
      · exact ih (i + 1)

theorem rebuild_every {ins : Table α → α → Except Fault (Table α × Bool)}
    (hins : ∀ t x, t.Every P → P x → Ensures AnyFault (ins t x) (fun r => r.1.Every P)) (h : t.Every P)
    (n : Nat) : Ensures AnyFault (rebuild ins t n) (Table.Every P) := by
  have hitems := Table.every_items.mp h
  refine (Ensures.foldlM (fun rest acc => acc.Every P ∧ ∀ x ∈ rest, P x) ?_ t.items _
    ⟨Table.every_empty n, hitems⟩).bind (fun _ hnew => hnew.1)
  rintro x rest acc ⟨hacc, hrest⟩
  refine Ensures.map ((hins acc x hacc (hrest x List.mem_cons_self)).mono (fun r hr => ⟨hr, ?_⟩))
  exact fun y hmem => hrest y (List.mem_cons_of_mem _ hmem)

theorem resizeWith_every {ins : Table α → α → Except Fault (Table α × Bool)}
    (hins : ∀ t x, t.Every P → P x → Ensures AnyFault (ins t x) (fun r => r.1.Every P)) (h : t.Every P)
    (asked : Int) : Ensures AnyFault (S.resizeWith ins t asked) (Table.Every P) := by
  unfold resizeWith
  split
  · exact h
  · exact rebuild_every hins h _

variable [DecidableEq K]

/-- An item that a search finds is one of the table's. -/
theorem search_every (h : t.Every P) (k : K) :
    Ensures AnyFault (S.search t k) (fun r => ∀ found, r = some found → P found.2) := by
  refine Ensures.map ((scan_every (R := fun r => ∀ found, r = some found → P found.2) ?_ t.size 0).mono ?_)
  · intro p s b hmem hb
    cases s with
    | null =>
      cases hb
      intro found hfound
      cases hfound
    | deleted => cases hb
    | live x =>
      simp only [searchStop] at hb
      split at hb
      · cases hb
        intro found hfound
        cases hfound
        exact h x hmem
      · cases hb
  · intro r hr found hfound
    exact hr _ (Option.join_eq_some_iff.mp hfound) found rfl

theorem insertWith_every {resize : Table α → Int → Except Fault (Table α)}
    (hresize : ∀ t asked, t.Every P → Ensures AnyFault (resize t asked) (Table.Every P)) (h : t.Every P)
    {x : α} (hx : P x) : Ensures AnyFault (S.insertWith resize t x) (fun r => r.1.Every P) := by
  refine Ensures.bind_any (fun spot => ?_)
  split
  · rename_i p
    have hplaced : (S.place t p x).Every P := h.write_live hx
    refine Ensures.bind (P := Table.Every P) ?_ (fun t' ht' => ht')
    unfold resizeUp
    split
    · exact hplaced
    · exact hresize _ _ hplaced
  · exact h
  · exact h

/-- Insertion brings in no item but the one inserted, however it resizes. -/
theorem insert_every (depth : Nat) : ∀ (t : Table α) (x : α), t.Every P → P x →
    Ensures AnyFault (S.insert depth t x) (fun r => r.1.Every P) := by
  induction depth with
  | zero => exact fun t x h hx => insertWith_every (fun _ _ _ => ensures_error.mpr trivial) h hx
  | succ depth ih =>
    exact fun t x h hx => insertWith_every (fun _ asked ht => resizeWith_every ih ht asked) h hx

theorem remove_every (depth : Nat) (h : t.Every P) (k : K) :
    Ensures AnyFault (S.remove depth t k) (fun r => r.1.Every P) := by
  refine Ensures.bind_any (fun found => ?_)
  split
  · exact h
  · rename_i p _
    have hcleared : (S.clear t p).Every P := h.write_deleted
    refine Ensures.bind (P := Table.Every P) ?_ (fun t' ht' => ht')
    unfold resizeDown
    split
    · exact hcleared
    · exact resizeWith_every (insert_every depth) hcleared _

end Scheme

end OpenAddressing
