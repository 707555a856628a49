import HyperKV.Htable.Contents
import HyperKV.Interpreter.Encoding
import HyperKV.Server

open hyperkv.Resp

namespace hyperkv

/-- The strings whose length is an `int`. -/
def Short (s : CStr) : Prop := s.length < 2147483648

instance : DecidablePred Short := fun s => inferInstanceAs (Decidable (s.length < 2147483648))

theorem framed_elem {reply : CStr} {elem : Elem} (hhead : reply.head? ≠ some CChar.minus)
    (hstar : reply.head? ≠ some CChar.star) (h : ∀ rest, read_elem (reply ++ rest) = some (elem, rest)) :
    Framed reply := by
  refine ⟨.one elem, fun rest => ?_⟩
  cases reply with
  | nil =>
    have hempty := h []
    cases hempty
  | cons c reply =>
    have hc : ¬ c = CChar.minus := fun heq => hhead (congrArg some heq)
    have hc' : ¬ c = CChar.star := fun heq => hstar (congrArg some heq)
    have helem := h rest
    rw [List.cons_append] at helem
    rw [List.cons_append, read_reply, if_neg hc, if_neg hc', helem]
    rfl

theorem framed_integer (x : Int) : Framed (reply_integer x) := by
  apply framed_elem
  · exact fun h => absurd (Option.some.inj h) (by decide)
  · exact fun h => absurd (Option.some.inj h) (by decide)
  · exact read_elem_integer x

theorem read_elem_string {str : Option CStr} (h : Answers Short str) :
    ∃ elem, ∀ rest, read_elem (reply_string str ++ rest) = some (elem, rest) := by
  cases str with
  | none => exact ⟨.nil, read_elem_nil⟩
  | some s => exact ⟨.bulk s, read_elem_bulk (h s rfl)⟩

theorem framed_string {str : Option CStr} (h : Answers Short str) : Framed (reply_string str) := by
  obtain ⟨elem, helem⟩ := read_elem_string h
  cases str with
  | none => exact framed_elem (by decide) (by decide) helem
  | some s =>
    apply framed_elem
    · exact fun hhead => absurd (Option.some.inj hhead) (by decide)
    · exact fun hhead => absurd (Option.some.inj hhead) (by decide)
    · exact helem

theorem framed_OK : Framed (reply_string (some (cstr "OK"))) := by
  apply framed_string
  intro s hs
  cases hs
  decide

theorem read_elem_element {str : Option CStr} (h : Answers Short str) :
    ∃ elem, ∀ rest, read_elem (reply_element str ++ rest) = some (elem, rest) := by
  cases str with
  | none => exact ⟨.nil, read_elem_nil⟩
  | some s =>
    by_cases hnumber : is_number s = true
    · have htext : reply_element (some s) = reply_integer (strtoi s) := if_pos hnumber
      rw [htext]
      exact ⟨.integer (strtoi s), read_elem_integer _⟩
    · have htext : reply_element (some s) = reply_string (some s) := if_neg hnumber
      rw [htext]
      exact read_elem_string h

/-- As many elements are read as were sent. -/
theorem read_elems_short {arr : List (Option CStr)} (h : ∀ str ∈ arr, Answers Short str) :
    ∃ elems, ∀ rest, read_elems arr.length (arr.flatMap reply_element ++ rest) = some (elems, rest) := by
  induction arr with
  | nil => exact ⟨[], fun _ => rfl⟩
  | cons str arr ih =>
    rw [List.forall_mem_cons] at h
    obtain ⟨elem, helem⟩ := read_elem_element h.1
    obtain ⟨elems, helems⟩ := ih h.2
    refine ⟨elem :: elems, fun rest => ?_⟩
    rw [List.length_cons, List.flatMap_cons, List.append_assoc, read_elems, helem]
    simp only [Option.bind_eq_bind, Option.bind_some]
    rw [helems]
    rfl

theorem framed_array_n {arr : List (Option CStr)} (h : ∀ str ∈ arr, Answers Short str) :
    Framed (reply_array_n arr) := by
  obtain ⟨elems, helems⟩ := read_elems_short h
  refine ⟨.array elems, fun rest => ?_⟩
  have htext : reply_array_n arr ++ rest = CChar.star ::
      (decimal arr.length ++ CChar.cr :: CChar.lf :: (arr.flatMap reply_element ++ rest)) := by
    simp only [reply_array_n, crlf_eq, List.append_assoc]
    rfl
  have hcount : ¬ (arr.length : Int) < 0 := by omega
  rw [htext, read_reply, if_neg (by decide), if_pos rfl, read_line_decimal]
  simp only [Option.bind_eq_bind, Option.bind_some]
  rw [read_number_decimal]
  simp only [Option.bind_some]
  rw [if_neg hcount, Int.toNat_natCast, helems]
  rfl

theorem framed_array {arr : Option (List CStr)} (h : ∀ s ∈ arr.getD [], Short s) :
    Framed (reply_array arr) := by
  rw [reply_array_eq]
  apply framed_array_n
  intro str hstr s heq
  obtain ⟨s', hmem, rfl⟩ := List.mem_map.mp hstr
  cases heq
  exact h s hmem

theorem framed_error {line : CStr} (h : CChar.cr ∉ line) : Framed (CChar.minus :: (line ++ crlf)) := by
  refine ⟨.error line, fun rest => ?_⟩
  rw [List.cons_append, read_reply, if_pos rfl, crlf_eq, List.append_assoc]
  simp only [List.cons_append, List.nil_append]
  rw [read_line_append h]
  rfl

theorem framed_err_argc (given : Nat) {expected : String} (h : CChar.cr ∉ cstr expected) :
    Framed (reply_err_argc given expected) := by
  have htext : reply_err_argc given expected = CChar.minus ::
      ((cstr "ERR wrong number of arguments (given " ++ decimal given ++ cstr ", expected " ++
        cstr expected ++ cstr ")") ++ crlf) := by
    simp only [reply_err_argc, List.append_assoc]
    rfl
  rw [htext]
  apply framed_error
  simp only [List.mem_append, not_or]
  exact ⟨⟨⟨⟨by decide, cr_not_mem_decimal _⟩, by decide⟩, h⟩, by decide⟩

theorem framed_err_type : Framed reply_err_type := by
  have hline : CChar.cr ∉ cstr "ERR wrongtype operation" := by decide
  exact framed_error hline

theorem framed_err_intid : Framed reply_err_intid := by
  have hline : CChar.cr ∉ cstr "ERR value is not an integer or out of range" := by decide
  exact framed_error hline

/-- The loop neither leaves nor shuts down on a framed reply. -/
theorem framed_dispatch {reply : CStr} (h : Framed reply) : dispatch reply = .writes reply := by
  have hhead : ∀ c, reply.head? = some c →
      c = CChar.minus ∨ c = CChar.star ∨ c = CChar.colon ∨ c = CChar.dollar := by
    intro c hc
    obtain ⟨v, hv⟩ := h
    obtain ⟨rest, rfl⟩ := List.head?_eq_some_iff.mp hc
    have hread := hv []
    rw [List.append_nil, read_reply] at hread
    by_contra hother
    simp only [not_or] at hother
    rw [if_neg hother.1, if_neg hother.2.1] at hread
    obtain ⟨r, hr, _⟩ := Option.map_eq_some_iff.mp hread
    obtain ⟨line, _, hr⟩ := Option.bind_eq_some_iff.mp hr
    obtain ⟨x, _, hr⟩ := Option.bind_eq_some_iff.mp hr
    simp only at hr
    rw [if_neg hother.2.2.1, if_neg hother.2.2.2] at hr
    cases hr
  have hquit : ¬ reply.head? = some CChar.q := fun hq => absurd (hhead _ hq) (by decide)
  have hshutdown : ¬ reply.head? = some CChar.x := fun hx => absurd (hhead _ hx) (by decide)
  rw [dispatch, if_neg hquit, if_neg hshutdown]

end hyperkv
