import HyperKV.Interpreter
import HyperKV.Resp

open hyperkv.Resp

namespace hyperkv

theorem crlf_eq : crlf = [CChar.cr, CChar.lf] := rfl

/-! ## Elements -/

theorem read_elem_integer (x : Int) (rest : CStr) :
    read_elem (reply_integer x ++ rest) = some (.integer x, rest) := by
  have htext : reply_integer x ++ rest = CChar.colon :: (decimal x ++ CChar.cr :: CChar.lf :: rest) := by
    rw [reply_integer, crlf_eq, List.append_assoc, List.append_assoc]
    rfl
  rw [htext, read_elem, read_line_decimal]
  simp only [Option.bind_eq_bind, Option.bind_some]
  rw [read_number_decimal]
  rfl

/-- How the header of a bulk string is read. -/
theorem read_elem_header (x : Int) (rest : CStr) :
    read_elem (cstr "$" ++ decimal x ++ crlf ++ rest) =
      if x = -1 then some (.nil, rest)
      else if x < 0 then none
      else (read_bulk x.toNat rest).map (fun (s, rest) => (.bulk s, rest)) := by
  have htext : cstr "$" ++ decimal x ++ crlf ++ rest =
      CChar.dollar :: (decimal x ++ CChar.cr :: CChar.lf :: rest) := by
    rw [crlf_eq, List.append_assoc, List.append_assoc]
    rfl
  rw [htext, read_elem, read_line_decimal]
  simp only [Option.bind_eq_bind, Option.bind_some]
  rw [read_number_decimal]
  rfl

theorem read_elem_nil (rest : CStr) : read_elem (reply_string none ++ rest) = some (.nil, rest) := by
  have htext : reply_string none = cstr "$" ++ decimal (-1) ++ crlf := by decide
  rw [htext, read_elem_header, if_pos rfl]

theorem reply_string_append (s rest : CStr) :
    reply_string (some s) ++ rest = cstr "$" ++ decimal (strlen s) ++ crlf ++ (s ++ (crlf ++ rest)) := by
  simp only [reply_string, List.append_assoc]

theorem read_elem_bulk {s : CStr} (h : s.length < 2147483648) (rest : CStr) :
    read_elem (reply_string (some s) ++ rest) = some (.bulk s, rest) := by
  rw [reply_string_append, read_elem_header, strlen_eq h, if_neg (by omega), if_neg (by omega),
    Int.toNat_natCast, crlf_eq]
  simp only [List.cons_append, List.nil_append]
  rw [read_bulk_append]
  rfl

/-- A bulk string is read back only when its length is an `int`. -/
theorem length_of_read_string {s rest rest' : CStr} {elem : Elem}
    (h : read_elem (reply_string (some s) ++ rest) = some (elem, rest')) (htext : elem.text = some s) :
    s.length < 2147483648 := by
  rw [reply_string_append, read_elem_header] at h
  split at h
  · cases h
    cases htext
  · split at h
    · cases h
    · obtain ⟨⟨s', rest''⟩, hread, heq⟩ := Option.map_eq_some_iff.mp h
      cases heq
      cases htext
      have hlen := length_read_bulk hread
      have hbound : strlen s < 2147483648 := (int32_bounds s.length).2
      omega

/-- A string that both array encoders send as it is: it fits a bulk string, and
    where it passes for a number it is the decimal text of an `int`. -/
def Faithful (s : CStr) : Prop :=
  s.length < 2147483648 ∧
    (is_number s = true → ∃ x : Int, -2147483648 ≤ x ∧ x < 2147483648 ∧ s = decimal x)

theorem read_element (str : Option CStr) (h : ∀ s, str = some s → Faithful s) (rest : CStr) :
    ∃ elem, read_elem (reply_element str ++ rest) = some (elem, rest) ∧ elem.text = str := by
  cases str with
  | none => exact ⟨.nil, read_elem_nil rest, rfl⟩
  | some s =>
    obtain ⟨hlen, hdecimal⟩ := h s rfl
    rw [reply_element]
    split
    · rename_i hnumber
      obtain ⟨x, hlow, hhigh, rfl⟩ := hdecimal hnumber
      rw [strtoi_decimal hlow hhigh]
      exact ⟨.integer x, read_elem_integer x rest, rfl⟩
    · exact ⟨.bulk s, read_elem_bulk hlen rest, rfl⟩

theorem faithful_iff {s : CStr} :
    Faithful s ↔ s.length < 2147483648 ∧ (is_number s = true → s = decimal (strtoi s)) := by
  refine and_congr_right (fun _ => imp_congr_right (fun _ => ⟨?_, fun heq => ?_⟩))
  · rintro ⟨x, hlow, hhigh, rfl⟩
    rw [strtoi_decimal hlow hhigh]
  · exact ⟨strtoi s, (strtoi_bounds s).1, (strtoi_bounds s).2, heq⟩

instance : DecidablePred Faithful := fun _ => decidable_of_iff _ faithful_iff.symm

theorem faithful_of_read {s rest rest' : CStr} {elem : Elem}
    (h : read_elem (reply_element (some s) ++ rest) = some (elem, rest')) (htext : elem.text = some s) :
    Faithful s := by
  rw [reply_element] at h
  split at h
  · rw [read_elem_integer] at h
    cases h
    have heq : s = decimal (strtoi s) := (Option.some.inj htext).symm
    have hlen := length_decimal_le (strtoi_bounds s).1 (strtoi_bounds s).2
    rw [← heq] at hlen
    exact faithful_iff.mpr ⟨by omega, fun _ => heq⟩
  · rename_i hnumber
    exact ⟨length_of_read_string h htext, fun hnumber' => absurd hnumber' hnumber⟩

/-! ## Arrays -/

theorem read_elems_faithful {arr : List (Option CStr)} (h : ∀ s, some s ∈ arr → Faithful s) :
    ∃ elems, read_elems arr.length (arr.flatMap reply_element) = some (elems, []) ∧
      elems.map Elem.text = arr := by
  induction arr with
  | nil => exact ⟨[], rfl, rfl⟩
  | cons str arr ih =>
    obtain ⟨elems, helems, hmap⟩ := ih (fun s hs => h s (List.mem_cons_of_mem _ hs))
    obtain ⟨elem, helem, htext⟩ :=
      read_element str (fun s hs => h s (hs ▸ List.mem_cons_self)) (arr.flatMap reply_element)
    refine ⟨elem :: elems, ?_, by rw [List.map_cons, htext, hmap]⟩
    rw [List.length_cons, List.flatMap_cons, read_elems, helem]
    simp only [Option.bind_eq_bind, Option.bind_some, helems]
    rfl

theorem faithful_of_read_elems {arr : List (Option CStr)} {elems : List Elem} {rest : CStr}
    (h : read_elems arr.length (arr.flatMap reply_element) = some (elems, rest))
    (hmap : elems.map Elem.text = arr) : ∀ s, some s ∈ arr → Faithful s := by
  induction arr generalizing elems with
  | nil => exact fun s hs => by cases hs
  | cons str arr ih =>
    rw [List.length_cons, List.flatMap_cons, read_elems] at h
    obtain ⟨⟨elem, input⟩, helem, h⟩ := Option.bind_eq_some_iff.mp h
    obtain ⟨⟨elems', rest'⟩, helems, h⟩ := Option.bind_eq_some_iff.mp h
    cases h
    rw [List.map_cons] at hmap
    obtain ⟨htext, hmap'⟩ := List.cons.inj hmap
    have hfaithful : ∀ s, str = some s → Faithful s := by
      rintro s rfl
      exact faithful_of_read helem htext
    -- the first element was read to its end
    obtain ⟨elem', helem', _⟩ := read_element str hfaithful (arr.flatMap reply_element)
    rw [helem] at helem'
    cases helem'
    intro s hs
    rcases List.mem_cons.mp hs with heq | hmem
    · exact hfaithful s heq.symm
    · exact ih helems hmap' s hmem

theorem read_array_reply (arr : List (Option CStr)) :
    read_array (reply_array_n arr) = (read_elems arr.length (arr.flatMap reply_element)).bind
      (fun (elems, rest) => if rest = [] then some elems else none) := by
  have htext : reply_array_n arr =
      CChar.star :: (decimal arr.length ++ CChar.cr :: CChar.lf :: arr.flatMap reply_element) := by
    rw [reply_array_n, crlf_eq, List.append_assoc, List.append_assoc]
    rfl
  rw [htext, read_array, read_line_decimal]
  simp only [Option.bind_eq_bind, Option.bind_some]
  rw [read_number_decimal]
  simp only [Option.bind_some]
  rw [if_pos ⟨trivial, Int.natCast_nonneg _⟩, Int.toNat_natCast]

/-- An array reply stands for the strings it was made from exactly when both
    encoders send each of them as it is. -/
theorem strings_reply_array_n (arr : List (Option CStr)) :
    strings (reply_array_n arr) = some arr ↔ ∀ s, some s ∈ arr → Faithful s := by
  rw [strings, read_array_reply]
  constructor
  · intro h
    obtain ⟨elems, helems, hmap⟩ := Option.map_eq_some_iff.mp h
    obtain ⟨⟨elems', rest⟩, hread, hrest⟩ := Option.bind_eq_some_iff.mp helems
    simp only at hrest
    split at hrest
    · cases hrest
      exact faithful_of_read_elems hread hmap
    · cases hrest
  · intro h
    obtain ⟨elems, helems, hmap⟩ := read_elems_faithful h
    rw [helems, Option.bind_some]
    simp only [if_true, Option.map_some, hmap]

theorem length_strings {arr values : List (Option CStr)} (h : strings (reply_array_n arr) = some values) :
    values.length = arr.length := by
  rw [strings, read_array_reply] at h
  obtain ⟨elems, helems, rfl⟩ := Option.map_eq_some_iff.mp h
  obtain ⟨⟨elems', rest⟩, hread, hrest⟩ := Option.bind_eq_some_iff.mp helems
  simp only at hrest
  split at hrest
  · cases hrest
    rw [List.length_map, length_read_elems hread]
  · cases hrest

/-- The other encoder is the same on an array that is there, and sends the empty
    array for a missing one. -/
theorem reply_array_eq (arr : Option (List CStr)) :
    reply_array arr = reply_array_n ((arr.getD []).map some) := by
  cases arr with
  | none => rfl
  | some arr =>
    rw [reply_array, reply_array_n, Option.getD_some, List.length_map, List.flatMap_map]

end hyperkv
