import HyperKV.OpenAddressing.Room

open Outcome

namespace OpenAddressing

namespace Scheme

variable {K α : Type} [DecidableEq K]

/-- Two schemes that compute the same on tables of at most `N` slots, as long as the
    counter stays within the slots. -/
structure Agrees (S S' : Scheme K α) (N : Nat) : Prop where
  key : S'.key = S.key
  checks : S'.checks = S.checks
  path : ∀ {k n i}, n ≤ N → i < n → S'.path k n i = S.path k n i
  count : ∀ {used : Int}, 0 ≤ used → used ≤ N → S'.count used = S.count used
  grow : ∀ {used : Int} {n : Nat}, 0 ≤ used → used ≤ n → n ≤ N → S'.grow used n = S.grow used n
  shrink : ∀ {used : Int} {n : Nat}, 0 ≤ used → used ≤ n → n ≤ N → S'.shrink used n = S.shrink used n
  capacity : S'.capacity = S.capacity

variable {S S' : Scheme K α} {N : Nat} {t : Table α}

/-! ## Probing -/

section probing

variable (h : Agrees S S' N) (hN : t.size ≤ N)
include h hN

omit [DecidableEq K] in
theorem Agrees.scan {β : Type} (k : K) (stop : Nat → Slot α → Option β) (attempts i : Nat)
    (hi : i + attempts ≤ t.size) : S'.scan t k stop attempts i = S.scan t k stop attempts i := by
  induction attempts generalizing i with
  | zero => rfl
  | succ attempts ih =>
    have hslot : S'.slotAt t k i = S.slotAt t k i := by
      unfold slotAt
      rw [h.path hN (by omega)]
    rw [Scheme.scan, Scheme.scan, hslot]
    cases S.slotAt t k i with
    | none => rfl
    | some found =>
      obtain ⟨p, s⟩ := found
      simp only
      cases stop p s with
      | some b => rfl
      | none => exact ih (i + 1) (by omega)

theorem Agrees.search (k : K) : S'.search t k = S.search t k := by
  have hstop : S'.searchStop k = S.searchStop k := by
    funext p s
    cases s with
    | null => rfl
    | deleted => rfl
    | live x => simp only [searchStop, h.key]
  unfold Scheme.search probe
  rw [hstop, h.scan hN k _ t.size 0 (by omega)]

theorem Agrees.findSpot (k : K) : S'.findSpot t k = S.findSpot t k := by
  have hstop : S'.insertStop k = S.insertStop k := by
    funext p s
    cases s with
    | null => rfl
    | deleted => rfl
    | live x => simp only [insertStop, h.key, h.checks]
  unfold Scheme.findSpot probe
  rw [hstop, h.scan hN k _ t.size 0 (by omega)]

end probing

/-! ## Insertions and removals -/

/-- Where the counter has room, only the resize that the insertion asks for can make
    a difference. -/
theorem Agrees.insertWith (h : Agrees S S' N) (hN : t.size ≤ N) (hused : 0 ≤ t.used)
    (hroom : t.used < t.size) {resize resize' : Table α → Int → Except Fault (Table α)} {x : α}
    (hsame : ∀ p asked, S.findSpot t (S.key x) = .ok (some (.free p)) →
      S.grow (S.place t p x).used t.size = some asked →
      resize' (S.place t p x) asked = resize (S.place t p x) asked)
    (hcount : S.count (t.used + 1) = t.used + 1) :
    S'.insertWith resize' t x = S.insertWith resize t x := by
  have hplace : ∀ p, S'.place t p x = S.place t p x := fun p => by
    unfold place
    rw [h.count (by omega) (by omega)]
  have hgrow : ∀ p, S'.grow (S.place t p x).used t.size = S.grow (S.place t p x).used t.size := by
    intro p
    have hplaced : (S.place t p x).used = t.used + 1 := hcount
    rw [hplaced]
    exact h.grow (by omega) (by omega) hN
  have hchanged : S'.insertWith resize' t x = S.insertWith resize' t x := by
    unfold Scheme.insertWith
    rw [h.key, h.findSpot hN]
    simp only [hplace, resizeUp, place_size, hgrow]
  rw [hchanged]
  exact insertWith_congr hsame

/-- A resize into a table twice as large as the items it takes over. -/
theorem Agrees.resize {overflow : Prop} {Sized : Nat → Prop} (h : Agrees S S' N)
    (hS : S.Lawful overflow Sized) (hcount : ∀ used, S.count used = used) {asked : Int} {n : Nat}
    (hn : Sized n) (hcapacity : S.capacity asked = some n) (hroom : 2 * t.items.length ≤ n)
    (hN : n ≤ N) (depth : Nat) : S'.resize depth t asked = S.resize depth t asked := by
  unfold Scheme.resize resizeWith
  rw [h.capacity, hcapacity]
  dsimp only [rebuild]
  have hused : (Table.empty n : Table α).used = 0 := Table.empty_used n
  rw [foldlM_eq_of_invariant (fun rest acc => acc.size = n ∧ 0 ≤ acc.used ∧
    2 * (acc.used + (rest.length : Int)) ≤ n) ?_ t.items _ ⟨Table.empty_size n, by omega, by omega⟩]
  rintro x rest acc ⟨hsize, hlow, hleft⟩
  rw [List.length_cons] at hleft
  have hsized : Sized acc.size := by rwa [hsize]
  have hfits : 2 * (acc.used + 1) ≤ acc.size := by omega
  constructor
  · rw [insert_eq, insert_eq, h.insertWith (by omega) hlow (by omega) ?_ (hcount _)]
    intro p asked _ hgrow
    rw [(place_no_grow hS p x hsized hlow hfits).2] at hgrow
    cases hgrow
  · apply Ensures.map
    apply (insert_no_grow hS depth x hsized hlow hfits).anyFault.mono
    rintro ⟨acc', taken⟩ ⟨hsize', hlow', hhigh⟩
    simp only at hsize' hlow' hhigh ⊢
    exact ⟨by omega, by omega, by omega⟩

/-- A resize that leaves a small table had asked for one. -/
theorem resize_asks {overflow : Prop} {Sized : Nat → Prop} (hS : S.Lawful overflow Sized) {asked : Int}
    {n depth : Nat} (hn : Sized n) (hcapacity : S.capacity asked = some n)
    (hroom : 2 * t.items.length ≤ n)
    (hafter : Ensures (fun _ => False) (S.resize depth t asked) (fun t' => t'.size ≤ N)) : n ≤ N := by
  unfold Scheme.resize resizeWith at hafter
  rw [hcapacity] at hafter
  obtain ⟨t', hbuilt, hle⟩ := hafter.exists_ok (fun _ => id)
  have hsize := ((rebuild_no_grow hS depth hn hroom).of_eq_ok hbuilt).2
  omega

section roomy

variable {overflow : Prop} {Sized : Nat → Prop} {Light : Int → Nat → Prop}
  (h : Agrees S S' N) (hS : S.Lawful overflow Sized) (hL : S.KeepsLight Light)
  (hroomy : S.Roomy Sized Light t) (hN : t.size ≤ N) (hroom : t.used < t.size)
include h hS hL hroomy hN hroom

/-- The table that an insertion leaves has to be small as well. -/
theorem Agrees.insert {x : α}
    (hafter : Ensures (fun _ => False) (S.insert 1 t x) (fun r => r.1.size ≤ N)) :
    S'.insert 1 t x = S.insert 1 t x := by
  have hitems := hroomy.items_le
  rw [insert_eq, insert_eq]
  apply h.insertWith hN (by omega) hroom ?_ (hL.count_eq _)
  intro p asked hfound hgrow
  obtain ⟨hused, hplaced⟩ := hroomy.place_used hL p x
  have hfits := hroomy.place_items hfound
  rw [hplaced] at hgrow
  obtain ⟨m, hcapacity, htwice, _⟩ := hL.grow hused hroomy.light hgrow
  have hm := (hS.grow_capacity hroomy.sized hgrow hcapacity).1
  rw [insert_eq, Scheme.insertWith, hfound] at hafter
  simp only [ok_bind, resizeUp, place_size, hplaced, hgrow] at hafter
  have hresized : Ensures (fun _ => False) (S.resize 0 (S.place t p x) asked) (fun t' => t'.size ≤ N) :=
    hafter.of_return
  have hsmall := resize_asks hS hm hcapacity (by omega) hresized
  exact h.resize hS hL.count_eq hm hcapacity (by omega) hsmall 0

/-- So has the one that a removal leaves. -/
theorem Agrees.remove {k : K}
    (hafter : Ensures (fun _ => False) (S.remove 1 t k) (fun r => r.1.size ≤ N)) :
    S'.remove 1 t k = S.remove 1 t k := by
  unfold Scheme.remove at hafter ⊢
  rw [h.search hN]
  cases hfound : S.search t k with
  | error e => rfl
  | ok r =>
    cases r with
    | none => rfl
    | some found =>
      obtain ⟨p, x⟩ := found
      have hslot := ((search_ensures hS hroomy.findable k).of_eq_ok hfound).1
      obtain ⟨hcleared, hleft⟩ := hroomy.clear_used hL hslot
      have hitems := hroomy.items_le
      have hclear : S'.clear t p = S.clear t p := by
        unfold clear
        rw [h.count (by omega) (by omega)]
      have hasks : S'.shrink (S.clear t p).used t.size = S.shrink (S.clear t p).used t.size := by
        rw [hcleared]
        exact h.shrink (by omega) (by omega) hN
      have hsame : S'.resizeDown (S'.resize 1) (S.clear t p) =
          S.resizeDown (S.resize 1) (S.clear t p) := by
        unfold resizeDown
        rw [clear_size, hasks]
        cases hshrink : S.shrink (S.clear t p).used t.size with
        | none => rfl
        | some asked =>
          cases hcapacity : S.capacity asked with
          | none =>
            simp only [Scheme.resize, resizeWith, h.capacity, hcapacity]
          | some m =>
            rw [hcleared] at hshrink
            obtain ⟨htwice, _⟩ := hL.shrink (by omega) hshrink hcapacity
            have hm := hS.shrink_capacity hroomy.sized hshrink hcapacity
            rw [hfound] at hafter
            simp only [ok_bind, resizeDown, clear_size, hcleared, hshrink] at hafter
            have hsmall := resize_asks hS hm hcapacity (by omega) hafter.of_return
            exact h.resize hS hL.count_eq hm hcapacity (by omega) hsmall 1
      simp only [ok_bind, hclear, hsame]

end roomy

/-! ## What an operation leaves the counter and the size at -/

section counts

variable {overflow : Prop} {Sized : Nat → Prop} {Light : Int → Nat → Prop}
  (hS : S.Lawful overflow Sized)
  (hL : S.KeepsLight Light) (h : S.Roomy Sized Light t)
include hS hL h

theorem Roomy.insert_counts (x : α) :
    Ensures AnyFault (S.insert 1 t x) (fun r =>
      (r.1.used = t.used ∧ r.1.size = t.size) ∨ (r.1.used = t.used + 1 ∧ (r.1.size = t.size ∨
        ∃ asked, S.grow (t.used + 1) t.size = some asked ∧ S.capacity asked = some r.1.size))) := by
  rw [insert_eq]
  apply (insertWith_cases (S.nestedResize 1) t x).mono
  rintro ⟨t', taken⟩ hr
  cases taken with
  | false =>
    obtain ⟨rfl, _⟩ := hr
    exact .inl ⟨rfl, rfl⟩
  | true =>
    obtain ⟨p, hfound, _, hgrown⟩ := hr
    obtain ⟨hused, hplaced⟩ := h.place_used hL p x
    have hitems := h.place_items hfound
    simp only [resizeUp, place_size, hplaced] at hgrown
    cases hgrow : S.grow (t.used + 1) t.size with
    | none =>
      rw [hgrow] at hgrown
      cases hgrown
      exact .inr ⟨hplaced, .inl (place_size ..)⟩
    | some asked =>
      obtain ⟨m, hcapacity, hroom, _⟩ := hL.grow hused h.light hgrow
      have hm := (hS.grow_capacity h.sized hgrow hcapacity).1
      rw [hgrow] at hgrown
      simp only [nestedResize, Scheme.resize, resizeWith, hcapacity] at hgrown
      obtain ⟨hused', hsize'⟩ := (rebuild_no_grow hS 0 hm (by omega)).of_eq_ok hgrown
      exact .inr ⟨hused'.trans hplaced, .inr ⟨asked, rfl, hcapacity.trans (congrArg some hsize'.symm)⟩⟩

theorem Roomy.remove_counts (k : K) :
    Ensures AnyFault (S.remove 1 t k) (fun r => r.1.used ≤ t.used ∧ (r.1.size = t.size ∨
      ∃ asked, S.shrink (t.used - 1) t.size = some asked ∧ S.capacity asked = some r.1.size)) := by
  unfold Scheme.remove
  apply (search_ensures hS h.findable k).anyFault.bind
  intro r hr
  cases r with
  | none => exact ⟨Int.le_refl _, .inl rfl⟩
  | some found =>
    obtain ⟨p, x⟩ := found
    obtain ⟨hcleared, hitems⟩ := h.clear_used hL hr.1
    have hresized : Ensures AnyFault (S.resizeDown (S.resize 1) (S.clear t p)) (fun t' =>
        t'.used = t.used - 1 ∧ (t'.size = t.size ∨
          ∃ asked, S.shrink (t.used - 1) t.size = some asked ∧ S.capacity asked = some t'.size)) := by
      unfold resizeDown
      rw [clear_size, hcleared]
      cases hshrink : S.shrink (t.used - 1) t.size with
      | none => exact ⟨hcleared, .inl (clear_size ..)⟩
      | some asked =>
        simp only [Scheme.resize, resizeWith]
        cases hcapacity : S.capacity asked with
        | none => exact ⟨hcleared, .inl (clear_size ..)⟩
        | some m =>
          obtain ⟨hroom, _⟩ := hL.shrink (by omega) hshrink hcapacity
          have hm := hS.shrink_capacity h.sized hshrink hcapacity
          apply (rebuild_no_grow hS 1 hm (by omega)).anyFault.mono
          rintro t' ⟨hused', hsize'⟩
          exact ⟨hused'.trans hcleared, .inr ⟨asked, rfl, hcapacity.trans (congrArg some hsize'.symm)⟩⟩
    apply hresized.bind
    rintro t' ⟨hused', hsize'⟩
    exact ⟨by simp only; omega, hsize'⟩

end counts

end Scheme

end OpenAddressing
