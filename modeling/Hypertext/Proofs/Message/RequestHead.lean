/-
Heads of requests as they are written and read: method, target and all lines come through, and the target falls into
the path and the query that it was made of.
-/
import Hypertext.Message.Request
import Hypertext.Proofs.Message.FieldText

namespace Hypertext

/-- A text may be the target of a request: it is not empty, and neither blanks nor control bytes are in it. -/
structure IsTarget (s : String) : Prop where
  nonempty : Bytes.ofText s ≠ []
  bytes : ∀ b ∈ Bytes.ofText s, Head.isTargetByte b = true

namespace Head

/-! ## Request lines -/

/-- The bytes of the first line of a request. -/
def requestLine (method target : String) : Bytes :=
  Bytes.ofText method ++ 32 :: (Bytes.ofText target ++ 32 :: (Bytes.ofText "HTTP/1.1" ++ Bytes.crlf))

theorem method_append {m : String} (h : IsToken m) (rest : Bytes) :
    method (Bytes.ofText m ++ 32 :: rest) = .done m rest := by
  obtain ⟨x, xs, hs, -, htext, hfirst, hothers⟩ := h.reads
  have hspace : (Scanner.byte (· == 32) .token : Reader UInt8) (32 :: rest) = .done 32 rest := Scanner.byte_of_pos rfl
  rw [hs, List.cons_append, method, Scanner.bind_of_done (hfirst _ _), Scanner.bind_of_done (hothers 32 rest rfl),
    Scanner.bind_of_done hspace, htext]
  rfl

theorem target_append {t : String} (h : IsTarget t) (rest : Bytes) :
    target (Bytes.ofText t ++ 32 :: rest) = .done t rest := by
  have hrun : (Scanner.span isTargetByte : Reader Bytes) (Bytes.ofText t ++ 32 :: rest) =
      .done (Bytes.ofText t) (32 :: rest) := Scanner.span_append h.bytes rfl
  have hspace : (Scanner.byte (· == 32) .token : Reader UInt8) (32 :: rest) = .done 32 rest := Scanner.byte_of_pos rfl
  rw [target, Scanner.bind_of_done hrun, Scanner.bind_of_done hspace, Bytes.text?_ofText]
  cases ht : Bytes.ofText t with
  | nil => exact absurd ht h.nonempty
  | cons b bs => rfl

/-- A head that is written is read with its method, its target and all its fields. -/
theorem request_append {m t : String} (hm : IsToken m) (ht : IsTarget t) {entries : List (String × String)}
    (hcount : entries.length ≤ maxFields) (hentries : ∀ e ∈ entries, IsToken e.1 ∧ IsFieldText e.2) (rest : Bytes) :
    request (requestLine m t ++ (entries.flatMap lineOf ++ (Bytes.crlf ++ rest))) =
      .done ⟨m, t, .http11, entries.map fun e => ⟨e.1, Bytes.ofText e.2⟩⟩ rest := by
  -- no token begins like an empty line
  have hskip : ∀ later : Bytes, skipEmptyLines (Bytes.ofText m ++ later) = .done () (Bytes.ofText m ++ later) := by
    obtain ⟨x, xs, hs, hx, -⟩ := hm.reads
    obtain ⟨h13, h10⟩ := isTokenByte_ne_newline x hx
    intro later
    rw [hs]
    exact skipEmptyLines_of_ne h10 h13
  rw [requestLine]
  simp only [List.append_assoc, List.cons_append]
  rw [request, Scanner.bind_of_done (hskip _), Scanner.bind_of_done (method_append hm _),
    Scanner.bind_of_done (target_append ht _), Scanner.bind_of_done (version_append _),
    Scanner.bind_of_done Scanner.newline_crlf, Scanner.bind_of_done (fields_lines hcount hentries rest)]
  rfl

end Head

/-! ## Targets -/

namespace Text

theorem cutList?_append {c : Char} : ∀ {before : List Char}, (∀ x ∈ before, x ≠ c) → ∀ after : List Char,
    cutList? c (before ++ c :: after) = some (before, after)
  | [], _, after => by rw [List.nil_append, cutList?, if_pos (beq_self_eq_true c)]
  | x :: before, h, after => by
    have hx : ¬ (x == c) = true := fun he => h x List.mem_cons_self (eq_of_beq he)
    rw [List.cons_append, cutList?, if_neg hx, cutList?_append fun y hy => h y (List.mem_cons_of_mem _ hy)]
    rfl

theorem cutList?_eq_none {c : Char} : ∀ {cs : List Char}, (∀ x ∈ cs, x ≠ c) → cutList? c cs = none
  | [], _ => rfl
  | x :: cs, h => by
    have hx : ¬ (x == c) = true := fun he => h x List.mem_cons_self (eq_of_beq he)
    rw [cutList?, if_neg hx, cutList?_eq_none fun y hy => h y (List.mem_cons_of_mem _ hy)]
    rfl

end Text

namespace Request

/-- A path without a question mark can be told from the query after it. -/
theorem splitTarget_query {path : String} (h : ∀ c ∈ path.toList, c ≠ '?') (query : String) :
    splitTarget (path ++ "?" ++ query) = (path, some query) := by
  have hchars : (path ++ "?" ++ query).toList = path.toList ++ '?' :: query.toList := by simp
  rw [splitTarget, Text.cut?, hchars, Text.cutList?_append h]
  simp

theorem splitTarget_path {path : String} (h : ∀ c ∈ path.toList, c ≠ '?') : splitTarget path = (path, none) := by
  rw [splitTarget, Text.cut?, Text.cutList?_eq_none h]
  rfl

end Request

end Hypertext
