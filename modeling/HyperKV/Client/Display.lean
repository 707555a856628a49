import HyperKV.Client
import HyperKV.Keyspace
import HyperKV.Parser
import HyperKV.Server

namespace hyperkv

/-! ## What the client prints -/

def print_quote_encase (str : CStr) : CStr :=
  CChar.double_quote :: (str ++ [CChar.double_quote]) ++ [CChar.lf]

/-- The copy of an error, without its first character and the last two. It gets no
    NUL of its own: the string ends where the new buffer, or what lies behind it,
    happens to hold one. -/
def parse_err (heap : List UInt8) (resp : CStr) : Option CStr :=
  match resp with
  | [] => none
  | _ :: resp =>
    if resp.length < 2 then none
    else
      let result := resp.take (resp.length - 2)
      c_string (result.map Subtype.val ++ heap.drop result.length)

/-- The text that a reply puts on the screen; `none` is an access outside of a
    string. Arrays are not shown. -/
def parse_resp (heap : List UInt8) (resp : CStr) : Option CStr :=
  match resp.head? with
  | none => some []
  | some c =>
    if c = CChar.dollar then
      (parse_str resp).map fun tmp =>
        match tmp with
        | none => cstr "(nil)\n"
        | some str => print_quote_encase str
    else if c = CChar.colon then
      (parse_int resp).map fun n => cstr "(integer) " ++ decimal n ++ [CChar.lf]
    else if c = CChar.star then some []
    else if c = CChar.minus then (parse_err heap resp).map (· ++ [CChar.lf])
    else some []

namespace Answer

/-- The text of a refusal. -/
def refusal : Answer → Option CStr
  | .wrongArgc given expected => some (cstr "ERR wrong number of arguments (given " ++ decimal given ++
      cstr ", expected " ++ cstr expected ++ cstr ")")
  | .wrongType => some (cstr "ERR wrongtype operation")
  | .notInteger => some (cstr "ERR value is not an integer or out of range")
  | .unrecognized => some (cstr "ERR unrecognized command")
  | _ => none

/-- What a user should see of an answer. -/
def shown : Answer → CStr
  | .bulk none => cstr "(nil)\n"
  | .bulk (some str) => print_quote_encase str
  | .int x => cstr "(integer) " ++ decimal x ++ [CChar.lf]
  | .array _ | .texts _ | .unordered _ | .bindings _ | .quit | .shutdown | .silent => []
  | refused => (refusal refused).getD [] ++ [CChar.lf]

/-- The numbers of the answer are `int`s. -/
def InInt : Answer → Prop
  | .bulk (some str) => str.length < 2147483648
  | .int x => -2147483648 ≤ x ∧ x < 2147483648
  | _ => True

theorem refusal_encodes {answer : Answer} {text reply : CStr} (hrefusal : answer.refusal = some text)
    (h : answer.Encodes reply) : reply = CChar.minus :: (text ++ crlf) ∧
    answer.shown = text ++ [CChar.lf] := by
  cases answer with
  | wrongArgc given expected =>
    cases hrefusal
    have hhead : cstr "-ERR wrong number of arguments (given " =
        CChar.minus :: cstr "ERR wrong number of arguments (given " := by decide +kernel
    have hlast : cstr ")\r\n" = cstr ")" ++ crlf := by decide +kernel
    refine ⟨h.trans ?_, rfl⟩
    rw [reply_err_argc, hhead, hlast]
    simp only [List.cons_append, List.append_assoc]
  | wrongType =>
    cases hrefusal
    exact ⟨h.trans (by decide +kernel), rfl⟩
  | notInteger =>
    cases hrefusal
    exact ⟨h.trans (by decide +kernel), rfl⟩
  | unrecognized =>
    cases hrefusal
    exact ⟨h.trans (by decide +kernel), rfl⟩
  | _ => cases hrefusal

end Answer

/-- A string ends where the memory has a NUL behind it. -/
theorem c_string_ends {text : CStr} {heap : List UInt8} :
    c_string (text.map Subtype.val ++ heap) = some text ↔ heap.head? = some 0 := by
  induction text with
  | nil =>
    cases heap with
    | nil => exact iff_of_false (fun h => by cases h) (fun h => by cases h)
    | cons b heap =>
      rw [List.map_nil, List.nil_append, c_string, List.head?_cons, Option.some_inj]
      by_cases hb : b = 0
      · rw [dif_neg (not_not_intro hb)]
        exact iff_of_true rfl hb
      · rw [dif_pos hb]
        refine iff_of_false (fun h => ?_) hb
        obtain ⟨str, _, heq⟩ := Option.map_eq_some_iff.mp h
        cases heq
  | cons c text ih =>
    rw [List.map_cons, List.cons_append, c_string, dif_pos c.property, ← ih]
    constructor
    · intro h
      obtain ⟨str, hstr, heq⟩ := Option.map_eq_some_iff.mp h
      rw [hstr, (List.cons.inj heq).2]
    · intro h
      rw [h]
      rfl

theorem parse_err_reply (heap : List UInt8) (text : CStr) :
    parse_err heap (CChar.minus :: (text ++ crlf)) =
      c_string (text.map Subtype.val ++ heap.drop text.length) := by
  have hlen : (text ++ crlf).length = text.length + 2 := List.length_append
  have hlong : ¬ (text ++ crlf).length < 2 := by omega
  have htext : (text ++ crlf).take ((text ++ crlf).length - 2) = text := by
    rw [hlen, Nat.add_sub_cancel, List.take_left]
  unfold parse_err
  dsimp only
  rw [if_neg hlong, htext]

/-- An error is shown as it is when a NUL follows its copy. -/
theorem parse_resp_refusal (heap : List UInt8) (text : CStr) :
    parse_resp heap (CChar.minus :: (text ++ crlf)) = some (text ++ [CChar.lf]) ↔
      heap[text.length]? = some 0 := by
  have hparse : parse_resp heap (CChar.minus :: (text ++ crlf)) =
      (c_string (text.map Subtype.val ++ heap.drop text.length)).map (· ++ [CChar.lf]) := by
    rw [← parse_err_reply]
    rfl
  rw [hparse, ← List.head?_drop, ← c_string_ends]
  constructor
  · intro h
    obtain ⟨str, hstr, heq⟩ := Option.map_eq_some_iff.mp h
    rw [hstr, List.append_cancel_right heq]
  · intro h
    rw [h]
    rfl

theorem parse_resp_string (heap : List UInt8) {str : Option CStr}
    (h : ∀ s, str = some s → s.length < 2147483648) :
    parse_resp heap (reply_string str) = some (Answer.bulk str).shown := by
  have hhead : (reply_string str).head? = some CChar.dollar := by cases str <;> rfl
  have hparse : parse_str (reply_string str) = some str := by
    cases str with
    | none => exact parse_str_nil
    | some s => exact parse_str_reply (h s rfl)
  unfold parse_resp
  rw [hhead]
  dsimp only
  rw [if_pos rfl, hparse]
  cases str <;> rfl

theorem parse_resp_integer (heap : List UInt8) {x : Int} (hlow : -2147483648 ≤ x)
    (hhigh : x < 2147483648) :
    parse_resp heap (reply_integer x) = some (Answer.int x).shown := by
  have hhead : (reply_integer x).head? = some CChar.colon := rfl
  unfold parse_resp
  rw [hhead]
  dsimp only
  rw [if_neg (by decide), if_pos rfl, parse_int_reply hlow hhigh]
  rfl

theorem parse_resp_array (heap : List UInt8) (arr : List (Option CStr)) :
    parse_resp heap (reply_array_n arr) = some [] := by
  have hhead : (reply_array_n arr).head? = some CChar.star := rfl
  unfold parse_resp
  rw [hhead]
  dsimp only
  rw [if_neg (by decide), if_neg (by decide), if_pos rfl]

/-- The client shows the answer that a reply tells, but for the arrays, which it does
    not show; and an error is shown as it is exactly when the byte behind its copy
    happens to be a NUL. -/
theorem parse_resp_shows {answer : Answer} {reply : CStr} (h : answer.Encodes reply) (hint : answer.InInt)
    (heap : List UInt8) :
    parse_resp heap reply = some answer.shown ↔
      ∀ text, answer.refusal = some text → heap[text.length]? = some 0 := by
  cases hrefusal : answer.refusal with
  | some text =>
    obtain ⟨rfl, hshown⟩ := Answer.refusal_encodes hrefusal h
    rw [hshown, parse_resp_refusal]
    refine ⟨fun hnul other hother => ?_, fun hnul => hnul text rfl⟩
    cases hother
    exact hnul
  | none =>
    refine iff_of_true ?_ (fun text htext => by cases htext)
    cases answer with
    | bulk str =>
      obtain rfl := h
      refine parse_resp_string heap (fun s hs => ?_)
      subst hs
      exact hint
    | int x =>
      obtain rfl := h
      exact parse_resp_integer heap hint.1 hint.2
    | array strs =>
      obtain rfl := h
      exact parse_resp_array heap _
    | texts told =>
      obtain ⟨l, _, rfl⟩ := h
      exact parse_resp_array heap _
    | unordered strs =>
      obtain ⟨l, _, rfl⟩ := h
      exact parse_resp_array heap _
    | bindings m =>
      obtain ⟨l, _, rfl⟩ := h
      exact parse_resp_array heap _
    | quit =>
      obtain rfl := h
      rfl
    | shutdown =>
      obtain rfl := h
      rfl
    | silent =>
      obtain rfl := h
      rfl
    | _ => cases hrefusal

theorem parse_resp_shows_garbage :
    parse_resp (List.replicate 64 7) reply_err_type = some Answer.wrongType.shown ↔
      ∀ text, Answer.wrongType.refusal = some text →
        (List.replicate 64 7 : List UInt8)[text.length]? = some 0 :=
  parse_resp_shows (show Answer.wrongType.Encodes reply_err_type from rfl) trivial _

end hyperkv
